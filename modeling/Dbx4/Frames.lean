import Mathlib.Data.List.Induction
import Dbx4.Loops

/-!
Streams of self-delimiting records, and loops that read them with a cursor.

A framing reads one record off the front of a stream and says how many symbols it took.
Reading again and again gives the records of the stream; they stop at the first place
where no record is read. A codec also writes records: its streams are read back, and a
stream cut anywhere is read back up to the last record that is whole.
-/

namespace Dbx4.Frames

open Dbx4.Loops

universe u v w x

variable {α : Type u} {β : Type v} {ε : Type w} {τ : Type x}

/-- A reader of one record, with the number of symbols it takes. -/
structure Framing (β : Type v) (α : Type u) where
  read : List β → Option (ℕ × α)
  read_pos : ∀ {bs c a}, read bs = some (c, a) → 0 < c
  read_le : ∀ {bs c a}, read bs = some (c, a) → c ≤ bs.length

namespace Framing

variable (F : Framing β α)

/-- The records at the front of a stream. -/
def records (bs : List β) : List α :=
  match _h : F.read bs with
  | none => []
  | some (c, a) => a :: records (bs.drop c)
termination_by bs.length
decreasing_by
  have := F.read_pos _h
  have := F.read_le _h
  simp only [List.length_drop]
  omega

/-- What is left of a stream after its records. -/
def rest (bs : List β) : List β :=
  match _h : F.read bs with
  | none => bs
  | some (c, _) => rest (bs.drop c)
termination_by bs.length
decreasing_by
  have := F.read_pos _h
  have := F.read_le _h
  simp only [List.length_drop]
  omega

variable {F}

lemma records_of_none {bs : List β} (h : F.read bs = none) : F.records bs = [] := by
  rw [records]; split <;> simp_all

lemma records_of_some {bs : List β} {c : ℕ} {a : α} (h : F.read bs = some (c, a)) :
    F.records bs = a :: F.records (bs.drop c) := by
  rw [records]; split <;> simp_all

lemma rest_of_none {bs : List β} (h : F.read bs = none) : F.rest bs = bs := by
  rw [rest]; split <;> simp_all

lemma rest_of_some {bs : List β} {c : ℕ} {a : α} (h : F.read bs = some (c, a)) :
    F.rest bs = F.rest (bs.drop c) := by
  rw [rest]; split <;> simp_all

/-- What holds of every record that can be read holds of the records of a stream. -/
lemma forall_mem_records {P : α → Prop} (h : ∀ bs c a, F.read bs = some (c, a) → P a)
    (bs : List β) : ∀ a ∈ F.records bs, P a := by
  induction hn : bs.length using Nat.strong_induction_on generalizing bs with
  | _ n ih =>
    rcases hr : F.read bs with _ | ⟨c, a⟩
    · rw [records_of_none hr]
      exact List.forall_mem_nil _
    · have hpos := F.read_pos hr
      have hle := F.read_le hr
      rw [records_of_some hr, List.forall_mem_cons]
      refine ⟨h bs c a hr, ih _ ?_ _ rfl⟩
      rw [List.length_drop]
      omega

/-- The offsets at which a record is looked for. -/
inductive At (F : Framing β α) (bs : List β) : ℕ → Prop
  | start : At F bs 0
  | next {p c : ℕ} {a : α} : At F bs p → F.read (bs.drop p) = some (c, a) → At F bs (p + c)

lemma At.eq_zero {bs : List β} {p : ℕ} (h : F.At bs p) (hr : F.read bs = none) : p = 0 := by
  induction h with
  | start => rfl
  | next _ hr' ih => subst ih; rw [List.drop_zero, hr] at hr'; cases hr'

lemma At.le_length {bs : List β} {p : ℕ} (h : F.At bs p) : p ≤ bs.length := by
  induction h with
  | start => exact Nat.zero_le _
  | @next p c a _ hr ih =>
    have hle := F.read_le hr
    rw [List.length_drop] at hle
    omega

end Framing

/-! ### Reading what was written -/

section Writing

universe y

variable {F : Framing β α} {γ : Type y} {enc : γ → List β} {val : γ → α} {as : List γ}

namespace Framing

/-- **Round trip**: what is written piece by piece is read back piece by piece, and then what
follows. -/
theorem records_flatMap
    (h : ∀ a ∈ as, ∀ bs, F.read (enc a ++ bs) = some ((enc a).length, val a)) (tail : List β) :
    F.records (as.flatMap enc ++ tail) = as.map val ++ F.records tail := by
  induction as with
  | nil => rfl
  | cons a as ih =>
    rw [List.forall_mem_cons] at h
    rw [List.flatMap_cons, List.append_assoc, records_of_some (h.1 _), List.drop_left, ih h.2,
      List.map_cons, List.cons_append]

theorem rest_flatMap
    (h : ∀ a ∈ as, ∀ bs, F.read (enc a ++ bs) = some ((enc a).length, val a)) (tail : List β) :
    F.rest (as.flatMap enc ++ tail) = F.rest tail := by
  induction as with
  | nil => rfl
  | cons a as ih =>
    rw [List.forall_mem_cons] at h
    rw [List.flatMap_cons, List.append_assoc, rest_of_some (h.1 _), List.drop_left, ih h.2]

/-- A record is looked for behind everything written. -/
theorem at_flatMap
    (h : ∀ a ∈ as, ∀ bs, F.read (enc a ++ bs) = some ((enc a).length, val a)) (tail : List β) :
    F.At (as.flatMap enc ++ tail) (as.flatMap enc).length := by
  induction as using List.reverseRecOn generalizing tail with
  | nil => exact .start
  | append_singleton as a ih =>
    have hbefore := ih (fun b hb => h b (List.mem_append_left _ hb)) (enc a ++ tail)
    have hread := h a (by simp) tail
    rw [List.flatMap_append, List.flatMap_singleton, List.append_assoc, List.length_append]
    refine hbefore.next (a := val a) ?_
    rw [List.drop_left, hread]

end Framing

end Writing

/-! ### Reading with a cursor -/

/-- One turn of a loop that reads a record at the cursor, notes it and moves on. -/
def turn (decode : List β → Except ε (Option (ℕ × α))) (note : τ → α → τ) (buffer : List β)
    (s : ℕ × τ) : Except ε (Option (ℕ × τ)) :=
  if s.1 < buffer.length then
    match decode (buffer.drop s.1) with
    | .error e => .error e
    | .ok none => .ok none
    | .ok (some (c, a)) => .ok (some (s.1 + c, note s.2 a))
  else .ok none

variable {decode : List β → Except ε (Option (ℕ × α))} {note : τ → α → τ} {buffer : List β}

lemma turn_eq_some {s s' : ℕ × τ} (h : turn decode note buffer s = .ok (some s')) :
    s.1 < buffer.length ∧
      ∃ c a, decode (buffer.drop s.1) = .ok (some (c, a)) ∧ s' = (s.1 + c, note s.2 a) := by
  unfold turn at h
  split at h
  · rename_i hlt
    rcases hd : decode (buffer.drop s.1) with e | _ | ⟨c, a⟩
    · simp [hd] at h
    · simp [hd] at h
    · exact ⟨hlt, c, a, rfl, by simpa [hd] using h.symm⟩
  · simp at h

variable {F : Framing β α}

/-- **A cursor loop notes the records of its buffer**, when its decoder reads as the framing
does at every offset where a record is looked for. -/
theorem returns_turn
    (hdec : ∀ p, F.At buffer p → decode (buffer.drop p) = .ok (F.read (buffer.drop p)))
    (t : τ) :
    ∃ p, Returns (fun n => loop (turn decode note buffer) n (0, t))
      (p, (F.records buffer).foldl note t) := by
  suffices H : ∀ k p t, buffer.length - p = k → F.At buffer p →
      ∃ q, Returns (fun n => loop (turn decode note buffer) n (p, t))
        (q, (F.records (buffer.drop p)).foldl note t) by
    simpa using H _ 0 t rfl .start
  intro k
  induction k using Nat.strongRecOn with
  | _ k ih =>
    intro p t hk hp
    rcases hr : F.read (buffer.drop p) with _ | ⟨c, a⟩
    · refine ⟨p, ?_⟩
      rw [Framing.records_of_none hr]
      apply returns_stop
      simp [turn, hdec p hp, hr]
    · have hc := F.read_pos hr
      have hle := F.read_le hr
      rw [List.length_drop] at hle
      have hturn : turn decode note buffer (p, t) = .ok (some (p + c, note t a)) := by
        simp [turn, hdec p hp, hr, show p < buffer.length by omega]
      obtain ⟨q, hq⟩ := ih (buffer.length - (p + c)) (by omega) (p + c) (note t a) rfl
        (hp.next hr)
      refine ⟨q, returns_step hturn ?_⟩
      rw [Framing.records_of_some hr, List.drop_drop, List.foldl_cons]
      exact hq

/-! ### Reading off the front of a stream -/

/-- One turn of a loop that reads a record off its stream, notes it and keeps the rest. -/
def streamTurn (F : Framing β α) (note : τ → α → τ) (s : List β × τ) :
    Except ε (Option (List β × τ)) :=
  match F.read s.1 with
  | none => .ok none
  | some (c, a) => .ok (some (s.1.drop c, note s.2 a))

/-- **A stream loop notes the records of its stream**. -/
theorem returns_streamTurn (F : Framing β α) (note : τ → α → τ) (bs : List β) (t : τ) :
    Returns (fun n => loop (streamTurn (ε := ε) F note) n (bs, t))
      (F.rest bs, (F.records bs).foldl note t) := by
  induction hn : bs.length using Nat.strongRecOn generalizing bs t with
  | _ n ih =>
    rcases hr : F.read bs with _ | ⟨c, a⟩
    · rw [Framing.records_of_none hr, Framing.rest_of_none hr]
      exact returns_stop (by simp [streamTurn, hr])
    · have hc := F.read_pos hr
      have hle := F.read_le hr
      rw [Framing.records_of_some hr, Framing.rest_of_some hr, List.foldl_cons]
      refine returns_step (by simp [streamTurn, hr]) (ih _ ?_ (bs.drop c) (note t a) rfl)
      rw [List.length_drop]
      omega

/-! ### Codecs -/

/-- A framing with a writer for the records it reads. What is written is read back whatever
follows it, and is not read from any shorter prefix. -/
structure Codec (β : Type v) (α : Type u) extends Framing β α where
  encode : α → List β
  Valid : α → Prop
  read_encode : ∀ {a} (bs : List β), Valid a →
    read (encode a ++ bs) = some ((encode a).length, a)
  read_torn : ∀ {a bs}, Valid a → bs <+: encode a → bs ≠ encode a → read bs = none

namespace Codec

variable (C : Codec β α)

def encodeAll (as : List α) : List β := as.flatMap C.encode

/-- The records that lie whole in the first `n` symbols of the stream of `as`. -/
def whole : ℕ → List α → List α
  | _, [] => []
  | n, a :: as =>
    if (C.encode a).length ≤ n then a :: whole (n - (C.encode a).length) as else []

/-- A stream cut short inside its next record: what is left is a proper prefix of it. -/
inductive Torn : List β → Prop
  | nil : Torn []
  | mid {a : α} {bs : List β} : C.Valid a → bs <+: C.encode a → bs ≠ C.encode a → Torn bs

variable {C}

@[simp] lemma encodeAll_nil : C.encodeAll [] = [] := rfl
@[simp] lemma encodeAll_cons (a : α) (as : List α) :
    C.encodeAll (a :: as) = C.encode a ++ C.encodeAll as := rfl
lemma read_nil : C.read [] = none := by
  rcases h : C.read [] with _ | ⟨c, a⟩
  · rfl
  · have := C.read_pos h
    have := C.read_le h
    simp at this
    omega

lemma Torn.read_eq_none {bs : List β} (h : C.Torn bs) : C.read bs = none := by
  cases h with
  | nil => exact read_nil
  | mid hv hp hne => exact C.read_torn hv hp hne

/-- **Round trip** of a stream that may end in a torn record. -/
theorem records_encodeAll (as : List α) {tail : List β} (hv : ∀ a ∈ as, C.Valid a)
    (ht : C.Torn tail) : C.records (C.encodeAll as ++ tail) = as := by
  have hread : ∀ a ∈ as, ∀ bs, C.read (C.encode a ++ bs) = some ((C.encode a).length, id a) :=
    fun a ha bs => C.read_encode bs (hv a ha)
  rw [encodeAll, Framing.records_flatMap hread, Framing.records_of_none ht.read_eq_none,
    List.map_id, List.append_nil]

theorem rest_encodeAll (as : List α) {tail : List β} (hv : ∀ a ∈ as, C.Valid a)
    (ht : C.Torn tail) : C.rest (C.encodeAll as ++ tail) = tail := by
  have hread : ∀ a ∈ as, ∀ bs, C.read (C.encode a ++ bs) = some ((C.encode a).length, id a) :=
    fun a ha bs => C.read_encode bs (hv a ha)
  rw [encodeAll, Framing.rest_flatMap hread, Framing.rest_of_none ht.read_eq_none]

/-- Where records are looked for in a stream: at the end of each record. -/
theorem drop_at (as : List α) {tail : List β} (hv : ∀ a ∈ as, C.Valid a) (ht : C.Torn tail)
    {p : ℕ} (hp : C.At (C.encodeAll as ++ tail) p) :
    ∃ bs, bs <:+ as ∧ (C.encodeAll as ++ tail).drop p = C.encodeAll bs ++ tail := by
  induction hp with
  | start => exact ⟨as, List.suffix_refl as, rfl⟩
  | @next p c a _ hr ih =>
    obtain ⟨bs, hbs, he⟩ := ih
    rw [he] at hr
    cases bs with
    | nil => rw [encodeAll_nil, List.nil_append, ht.read_eq_none] at hr; cases hr
    | cons b bs =>
      have hb : b ∈ as := hbs.subset (by simp)
      rw [encodeAll_cons, List.append_assoc, C.read_encode _ (hv b hb)] at hr
      obtain ⟨rfl, rfl⟩ : (C.encode b).length = c ∧ b = a := by simpa using hr
      refine ⟨bs, (List.suffix_cons b bs).trans hbs, ?_⟩
      rw [← List.drop_drop, he, encodeAll_cons, List.append_assoc, List.drop_left]

lemma Torn.take {bs : List β} (h : C.Torn bs) (n : ℕ) : C.Torn (bs.take n) := by
  cases h with
  | nil => simpa using Torn.nil
  | mid hv hp hne =>
    refine .mid hv ((List.take_prefix n bs).trans hp) fun he => hne ?_
    have hle := (List.take_prefix n bs).length_le
    rw [he] at hle
    exact hp.eq_of_length_le hle

/-- **A cut stream** is the stream of the records whole in it, and a torn one. -/
theorem take_encodeAll (as : List α) {tail : List β} (hv : ∀ a ∈ as, C.Valid a)
    (ht : C.Torn tail) (n : ℕ) :
    ∃ tail', C.Torn tail' ∧
      (C.encodeAll as ++ tail).take n = C.encodeAll (C.whole n as) ++ tail' := by
  induction as generalizing n with
  | nil => exact ⟨tail.take n, ht.take n, by simp [whole]⟩
  | cons a as ih =>
    by_cases hn : (C.encode a).length ≤ n
    · obtain ⟨tail', ht', he⟩ := ih (fun b hb => hv b (by simp [hb])) (n - (C.encode a).length)
      refine ⟨tail', ht', ?_⟩
      rw [encodeAll_cons, List.append_assoc, List.take_append, List.take_of_length_le hn, he]
      simp [whole, hn]
    · have hcut : (C.encodeAll (a :: as) ++ tail).take n = (C.encode a).take n := by
        rw [encodeAll_cons, List.append_assoc, List.take_append_of_le_length (by omega)]
      refine ⟨(C.encode a).take n, .mid (hv a (by simp)) (List.take_prefix _ _) ?_, ?_⟩
      · intro h
        have := congrArg List.length h
        simp only [List.length_take] at this
        omega
      · rw [hcut]; simp [whole, hn]

lemma whole_of_le {n : ℕ} {as : List α} (h : (C.encodeAll as).length ≤ n) : C.whole n as = as := by
  induction as generalizing n with
  | nil => rfl
  | cons a as ih =>
    rw [encodeAll_cons, List.length_append] at h
    rw [whole, if_pos (by omega), ih (by omega)]

lemma whole_zero {as : List α} (hv : ∀ a ∈ as, C.Valid a) : C.whole 0 as = [] := by
  cases as with
  | nil => rfl
  | cons a as =>
    have hpos := C.read_pos (C.read_encode [] (hv a (List.mem_cons_self ..)))
    rw [whole, if_neg (by omega)]

lemma whole_initial (n : ℕ) (as : List α) : C.whole n as <+: as := by
  induction as generalizing n with
  | nil => simp [whole]
  | cons a as ih =>
    unfold whole
    split
    · exact (List.prefix_cons_inj a).mpr (ih _)
    · exact List.nil_prefix

end Codec

end Dbx4.Frames
