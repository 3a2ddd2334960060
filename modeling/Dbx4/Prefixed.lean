import Dbx4.Frames
import Dbx4.Memory

/-!
Codecs for records of more than one string: strings behind their length, and one record behind
another.
-/

namespace Dbx4.Prefixed

open Dbx4.Frames Dbx4.Memory Dbx4.Word32

universe u v w

/-! ### One record behind another -/

section Pair

variable {α : Type u} {β : Type v} {γ : Type w} (C : Codec β α) (D : Codec β γ)

def pairRead (bs : List β) : Option (ℕ × α × γ) :=
  (C.read bs).bind fun r => (D.read (bs.drop r.1)).map fun s => (r.1 + s.1, r.2, s.2)

variable {C D}

lemma pairRead_eq_some {bs : List β} {c : ℕ} {p : α × γ} (h : pairRead C D bs = some (c, p)) :
    ∃ k l, C.read bs = some (k, p.1) ∧ D.read (bs.drop k) = some (l, p.2) ∧ c = k + l := by
  obtain ⟨⟨k, a⟩, hC, hrest⟩ := Option.bind_eq_some_iff.mp h
  obtain ⟨⟨l, b⟩, hD, heq⟩ := Option.map_eq_some_iff.mp hrest
  cases heq
  exact ⟨k, l, hC, hD, rfl⟩

lemma pairRead_append {p : α × γ} (hC : C.Valid p.1) (hD : D.Valid p.2) (bs : List β) :
    pairRead C D ((C.encode p.1 ++ D.encode p.2) ++ bs) =
      some ((C.encode p.1 ++ D.encode p.2).length, p) := by
  rw [pairRead, List.append_assoc, C.read_encode _ hC, Option.bind_some, List.drop_left,
    D.read_encode _ hD, Option.map_some, List.length_append]

/-- A pair that is cut is cut in its first record, or in its second. -/
lemma pairRead_torn {p : α × γ} {bs : List β} (hC : C.Valid p.1) (hD : D.Valid p.2)
    (hbefore : bs <+: C.encode p.1 ++ D.encode p.2) (hne : bs ≠ C.encode p.1 ++ D.encode p.2) :
    pairRead C D bs = none := by
  rw [pairRead]
  by_cases hfirst : C.encode p.1 <+: bs
  · obtain ⟨tail, rfl⟩ := hfirst
    rw [List.prefix_append_right_inj] at hbefore
    have htail : tail ≠ D.encode p.2 := fun h => hne (h ▸ rfl)
    rw [C.read_encode _ hC, Option.bind_some, List.drop_left, D.read_torn hD hbefore htail,
      Option.map_none]
  · have hcut : bs <+: C.encode p.1 :=
      (List.prefix_or_prefix_of_prefix hbefore (List.prefix_append _ _)).resolve_right hfirst
    have hbs : bs ≠ C.encode p.1 := fun h => hfirst (h ▸ List.prefix_refl _)
    rw [C.read_torn hC hcut hbs, Option.bind_none]

variable (C D) in
def pair : Codec β (α × γ) where
  read := pairRead C D
  read_pos h := by
    obtain ⟨k, l, hC, -, rfl⟩ := pairRead_eq_some h
    have := C.read_pos hC
    omega
  read_le h := by
    obtain ⟨k, l, hC, hD, rfl⟩ := pairRead_eq_some h
    have hk := C.read_le hC
    have hl := D.read_le hD
    rw [List.length_drop] at hl
    omega
  encode p := C.encode p.1 ++ D.encode p.2
  Valid p := C.Valid p.1 ∧ D.Valid p.2
  read_encode bs h := pairRead_append h.1 h.2 bs
  read_torn h hbefore hne := pairRead_torn h.1 h.2 hbefore hne

variable {bs : List β} {k l : ℕ} {a : α} {b : γ}

lemma pair_of_none (h : C.read bs = none) : (pair C D).read bs = none := by
  change pairRead C D bs = none
  rw [pairRead, h, Option.bind_none]

lemma pair_of_some_none (h : C.read bs = some (k, a)) (h' : D.read (bs.drop k) = none) :
    (pair C D).read bs = none := by
  change pairRead C D bs = none
  rw [pairRead, h, Option.bind_some, h', Option.map_none]

lemma pair_of_some (h : C.read bs = some (k, a)) (h' : D.read (bs.drop k) = some (l, b)) :
    (pair C D).read bs = some (k + l, a, b) := by
  change pairRead C D bs = _
  rw [pairRead, h, Option.bind_some, h', Option.map_some]

end Pair

/-! ### Strings behind their length -/

variable {k : ℕ}

/-- The string behind its length in `k` bytes. -/
def readPrefixed (k : ℕ) (bs : Bytes) : Option (ℕ × Bytes) :=
  if bs.length < k then none
  else if bs.length < k + ofLe (bs.take k) then none
  else some (k + ofLe (bs.take k), (bs.drop k).take (ofLe (bs.take k)))

def encodePrefixed (k : ℕ) (s : Bytes) : Bytes := toLe k s.length ++ s

lemma readPrefixed_eq_some {bs s : Bytes} {c : ℕ} (h : readPrefixed k bs = some (c, s)) :
    c = k + s.length ∧ c ≤ bs.length ∧ s.length < 256 ^ k := by
  unfold readPrefixed at h
  split_ifs at h with hk hlen
  cases h
  have hbound := ofLe_lt (bs.take k)
  rw [List.length_take, Nat.min_eq_left (by omega)] at hbound
  rw [List.length_take, List.length_drop]
  omega

lemma readPrefixed_append {s : Bytes} (h : s.length < 256 ^ k) (bs : Bytes) :
    readPrefixed k (encodePrefixed k s ++ bs) = some ((encodePrefixed k s).length, s) := by
  have htake : (encodePrefixed k s ++ bs).take k = toLe k s.length := by
    rw [encodePrefixed, List.append_assoc, List.take_left' (toLe_length _ _)]
  have hdrop : (encodePrefixed k s ++ bs).drop k = s ++ bs := by
    rw [encodePrefixed, List.append_assoc, List.drop_left' (toLe_length _ _)]
  have hlen : (encodePrefixed k s).length = k + s.length := by
    rw [encodePrefixed, List.length_append, toLe_length]
  rw [readPrefixed, htake, hdrop, ofLe_toLe h, List.length_append, hlen, if_neg (by omega),
    if_neg (by omega), List.take_left]

lemma readPrefixed_torn {s bs : Bytes} (h : s.length < 256 ^ k)
    (hbefore : bs <+: encodePrefixed k s) (hne : bs ≠ encodePrefixed k s) :
    readPrefixed k bs = none := by
  have hlen : (encodePrefixed k s).length = k + s.length := by
    rw [encodePrefixed, List.length_append, toLe_length]
  have hshort : bs.length < k + s.length := by
    rw [← hlen]
    exact lt_of_le_of_ne hbefore.length_le fun heq => hne (hbefore.eq_of_length heq)
  rw [readPrefixed]
  split_ifs with hk hcut
  · rfl
  · rfl
  · have htake : bs.take k = toLe k s.length := by
      rw [(List.prefix_iff_eq_take.mp hbefore), List.take_take, Nat.min_eq_left (by omega),
        encodePrefixed, List.take_left' (toLe_length _ _)]
    rw [htake, ofLe_toLe h] at hcut
    exact absurd hshort hcut

/-- Strings behind their length in `k` bytes, the low byte first. -/
def prefixed (k : ℕ) (hk : 0 < k) : Codec UInt8 Bytes where
  read := readPrefixed k
  read_pos h := by
    obtain ⟨rfl, -, -⟩ := readPrefixed_eq_some h
    omega
  read_le h := (readPrefixed_eq_some h).2.1
  encode := encodePrefixed k
  Valid s := s.length < 256 ^ k
  read_encode bs h := readPrefixed_append h bs
  read_torn h hbefore hne := readPrefixed_torn h hbefore hne

end Dbx4.Prefixed
