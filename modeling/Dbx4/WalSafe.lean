import Dbx4.WalLog

/-!
Recovery on an arbitrary file: which calls of the decoder stay inside their buffer, and when
the two passes terminate.

The decoder adds the header to the length field in 32 bits. A length field of `2 ^ 32 - 12`
or more wraps: the check on the buffer passes, the payload is copied from wherever it is, and
the cursor moves on by less than a header. On every other file recovery is safe.
-/

namespace Dbx4.WalSafe

open Dbx4.Loops Dbx4.Frames Dbx4.Word32 Dbx4.WalModel Dbx4.WalLog

/-- The call stays inside `buf`, and an entry it accepts takes a header and its length. -/
def SafeCall (buf : Bytes) : Prop :=
  match decodeEntry buf with
  | .error _ => False
  | .ok none => True
  | .ok (some (consumed, _)) =>
    12 ≤ consumed ∧ consumed ≤ buf.length ∧ consumed = 12 + (lenField buf).toNat

lemma wrapped_lt {len : UInt32} (h : 2 ^ 32 ≤ len.toNat + 12) : (12 + len).toNat < 12 := by
  have hlt := len.toNat_lt
  rw [UInt32.toNat_add, show (12 : UInt32).toNat = 12 from rfl]
  omega

lemma safeCall_iff (buf : Bytes) : SafeCall buf ↔ NoWrap buf := by
  refine ⟨fun h h12 => ?_, fun h => ?_⟩
  · by_contra hwrap
    have hlt : (12 + lenField buf).toNat < 12 := wrapped_lt (by omega)
    unfold SafeCall decodeEntry at h
    simp only [if_neg (show ¬ buf.length < 12 by omega),
      if_neg (show ¬ buf.length < (12 + lenField buf).toNat by omega)] at h
    split_ifs at h
    · exact h
    · obtain ⟨h1, -⟩ := h
      omega
  · unfold SafeCall
    rw [decodeEntry_of_noWrap h]
    unfold readEntry
    split_ifs
    · trivial
    · exact ⟨by omega, by omega, rfl⟩

/-! ### The calls recovery makes -/

/-- A pass makes safe calls only, and moves the cursor forward with every turn. -/
structure SafePass {τ : Type} (pass : ℕ × τ → Except Fault (Option (ℕ × τ))) (file : Bytes)
    (t : τ) : Prop where
  calls : ∀ s, Reaches pass (0, t) s → s.1 < file.length → SafeCall (file.drop s.1)
  forward : ∀ s s', Reaches pass (0, t) s → pass s = .ok (some s') → s.1 < s'.1

/-- Both passes are safe, and recovery returns. -/
structure SafeRecovery (file : Bytes) : Prop where
  first : SafePass (firstPass file) file ∅
  second : ∀ committedTxns, SafePass (secondPass committedTxns file) file []
  returns : ∀ committedTxns, ∃ r, Returns (WALManager.recover ⟨some file, committedTxns⟩) r

section Pass

variable {τ : Type} {note : τ → WALEntry → τ} {file : Bytes} {t : τ}

/-- On a sane file the cursor of a pass stands where the codec looks for a record. -/
lemma at_of_reaches (hs : Sane file) {s : ℕ × τ}
    (h : Reaches (turn decodeEntry note file) (0, t) s) : walCodec.At file s.1 := by
  refine h.inv (P := fun s => walCodec.At file s.1) .start fun s s' hat hturn => ?_
  obtain ⟨-, c, e, hd, rfl⟩ := turn_eq_some hturn
  rw [decodeEntry_of_noWrap (hs _ hat)] at hd
  exact hat.next (Except.ok.inj hd)

lemma safePass_of_sane (hs : Sane file) : SafePass (turn decodeEntry note file) file t where
  calls s hr _ := (safeCall_iff _).mpr (hs _ (at_of_reaches hs hr))
  forward s s' hr hturn := by
    obtain ⟨-, c, e, hd, rfl⟩ := turn_eq_some hturn
    rw [decodeEntry_of_noWrap (hs _ (at_of_reaches hs hr))] at hd
    have := walCodec.read_pos (Except.ok.inj hd)
    simp only
    omega

/-- A safe pass visits every offset where the codec looks for a record, and no header there
wraps. -/
lemma reaches_of_at (h : SafePass (turn decodeEntry note file) file t) {p : ℕ}
    (hp : walCodec.At file p) :
    NoWrap (file.drop p) ∧ ∃ r, Reaches (turn decodeEntry note file) (0, t) (p, r) := by
  have hnow : ∀ p r, Reaches (turn decodeEntry note file) (0, t) (p, r) →
      NoWrap (file.drop p) := by
    intro p r hr h12
    rw [List.length_drop] at h12
    exact (safeCall_iff _).mp (h.calls _ hr (by simp only; omega)) (by
      rw [List.length_drop]; omega)
  induction hp with
  | start => exact ⟨hnow 0 t .start, t, .start⟩
  | @next p c e _ hread ih =>
    obtain ⟨hw, r, hr⟩ := ih
    have hle := walCodec.read_le hread
    have hpos := walCodec.read_pos hread
    rw [List.length_drop] at hle
    have hturn : turn decodeEntry note file (p, r) = .ok (some (p + c, note r e)) := by
      have hd : decodeEntry (file.drop p) = .ok (some (c, e)) := by
        rw [decodeEntry_of_noWrap hw]; exact congrArg _ hread
      simp [turn, hd, show p < file.length by omega]
    exact ⟨hnow _ _ (hr.turn hturn), _, hr.turn hturn⟩

end Pass

/-- **Recovery is safe exactly on sane files**: those in which no header that is looked for
has a length field of `2 ^ 32 - 12` or more. -/
theorem safeRecovery_iff (file : Bytes) :
    SafeRecovery file ↔
      ∀ p, walCodec.At file p → 12 ≤ (file.drop p).length →
        (lenField (file.drop p)).toNat < 2 ^ 32 - 12 := by
  have hsane : Sane file ↔ ∀ p, walCodec.At file p → 12 ≤ (file.drop p).length →
      (lenField (file.drop p)).toNat < 2 ^ 32 - 12 := by
    refine forall_congr' fun p => imp_congr_right fun _ => imp_congr_right fun _ => ?_
    omega
  rw [← hsane]
  refine ⟨fun h p hp => (reaches_of_at h.first hp).1, fun hs => ?_⟩
  refine ⟨safePass_of_sane hs, fun m => safePass_of_sane hs, fun m => ?_⟩
  obtain ⟨m', hm', -⟩ := recover_of_sane ⟨some file, m⟩ hs
  exact ⟨_, hm'⟩

/-- A header with length field `2 ^ 32 - 12` and nothing behind it. -/
def wrappedHeader : Bytes := le32 1 ++ le32 1 ++ le32 0xFFFFFFF4

/-- On it the decoder copies bytes from outside of its buffer. -/
theorem wrappedHeader_unsafe : ¬ SafeRecovery wrappedHeader := by
  intro h
  have hcall := h.first.calls _ .start (by decide)
  have hd : decodeEntry wrappedHeader = .error .outOfBounds := by rfl
  rw [List.drop_zero, SafeCall, hd] at hcall
  exact hcall

end Dbx4.WalSafe
