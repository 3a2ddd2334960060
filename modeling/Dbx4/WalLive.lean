import Dbx4.WalCrash

/-!
A log that lives through crashes.

Behind the manager stands the list of the entries that are whole in its file. A write puts one
at the end, a crash leaves those that are whole in what is left, and recovery answers from the
list alone. What the manager has in mind is what it has written or recovered itself.
-/

namespace Dbx4.WalLive

open Dbx4.Loops Dbx4.Frames Dbx4.Runs Dbx4.Word32 Dbx4.WalModel Dbx4.WalLog

/-! ### What happens to a manager -/

inductive Event
  | write (c : Call)
  /-- The file is cut, and a new manager takes it over. -/
  | crash (n : ℕ)
  | recover

/-- One event, and what recovery answers. A write finds a file of whole entries. -/
inductive Does : WALManager → Event → Option (List WALEntry) → WALManager → Prop
  | write {w : WALManager} {c : Call} (hfit : Fits c.entry)
    (hwhole : walCodec.rest (w.wal.getD []) = []) : Does w (.write c) none (c.apply w)
  | crash (w : WALManager) (n : ℕ) : Does w (.crash n) none { wal := w.wal.map (List.take n) }
  | recover {w w' : WALManager} {recovered : List WALEntry}
    (h : Returns w.recover (recovered, w')) : Does w .recover (some recovered) w'

inductive Run : WALManager → List Event → List (Option (List WALEntry)) → WALManager → Prop
  | nil (w : WALManager) : Run w [] [] w
  | cons {w w' w'' : WALManager} {e : Event} {es : List Event} {a : Option (List WALEntry)}
    {as : List (Option (List WALEntry))} (h : Does w e a w') (hrun : Run w' es as w'') :
    Run w (e :: es) (a :: as) w''

/-! ### The list of entries -/

structure Log where
  /-- The entries that are whole in the file. -/
  entries : List WALEntry := []
  /-- Those that the manager has written or recovered. -/
  known : List WALEntry := []

namespace Log

def step (l : Log) : Event → Log
  | .write c => ⟨l.entries ++ [c.entry], l.known ++ [c.entry]⟩
  | .crash n => ⟨walCodec.whole n l.entries, []⟩
  | .recover => { l with known := l.entries }

def answer (l : Log) : Event → Option (List WALEntry)
  | .recover => some (replayed l.entries)
  | _ => none

end Log

/-! ### One event -/

structure Coherent (w : WALManager) (l : Log) : Prop where
  fits : ∀ e ∈ l.entries, Fits e
  file : ∃ tail, walCodec.Torn tail ∧ w.wal.getD [] = walCodec.encodeAll l.entries ++ tail
  committed : ∀ t, w.committedTxns[t]? = lastMarker t l.known

lemma coherent_empty : Coherent {} {} where
  fits := List.forall_mem_nil _
  file := ⟨[], .nil, rfl⟩
  committed _ := Std.ExtTreeMap.getElem?_empty

lemma apply_committedTxns (w : WALManager) (c : Call) :
    (c.apply w).committedTxns = noteMarker w.committedTxns c.entry := by
  cases c <;> rfl

section Coherent

variable {w w' : WALManager} {l : Log} (h : Coherent w l)

include h

lemma Coherent.write {c : Call} (hfit : Fits c.entry)
    (hwhole : walCodec.rest (w.wal.getD []) = []) : Coherent (c.apply w) (l.step (.write c)) where
  fits e he := by
    rcases List.mem_append.mp he with he | he
    · exact h.fits e he
    · rw [List.mem_singleton.mp he]
      exact hfit
  file := by
    obtain ⟨tail, htorn, hfile⟩ := h.file
    rw [hfile] at hwhole
    have htail : tail = [] := (Codec.rest_encodeAll l.entries h.fits htorn).symm.trans hwhole
    refine ⟨[], .nil, ?_⟩
    rw [Call.apply_wal, Option.getD_some, hfile, htail, List.append_nil, List.append_nil]
    simp [Log.step, Codec.encodeAll, walCodec]
  committed t := by
    rw [apply_committedTxns, noteMarker_getElem?, h.committed, Log.step, lastMarker_append,
      lastMarker_cons, lastMarker_nil, Option.none_or]

lemma Coherent.crash (n : ℕ) :
    Coherent { wal := w.wal.map (List.take n) } (l.step (.crash n)) := by
  obtain ⟨tail, htorn, hfile⟩ := h.file
  obtain ⟨tail', htorn', hcut⟩ := Codec.take_encodeAll l.entries h.fits htorn n
  refine ⟨fun e he => h.fits e ((Codec.whole_initial n l.entries).subset he), ⟨tail', htorn', ?_⟩,
    fun _ => Std.ExtTreeMap.getElem?_empty⟩
  have hget : (w.wal.map (List.take n)).getD [] = (w.wal.getD []).take n := by
    rcases w.wal with _ | file <;> simp
  rw [hget, hfile, hcut]
  rfl

lemma Coherent.recovers :
    ∃ m, Returns w.recover (replayed l.entries, { w with committedTxns := m }) ∧
      ∀ t, m[t]? = lastMarker t l.entries := by
  obtain ⟨tail, htorn, hfile⟩ := h.file
  obtain ⟨m, hm, hmark⟩ := recover_of_sane w (hfile ▸ sane_encodeAll h.fits htorn)
  rw [hfile, Codec.records_encodeAll _ h.fits htorn] at hm hmark
  exact ⟨m, hm, hmark⟩

/-- **One event** is answered from the list, and goes along with it. -/
theorem Coherent.does {e : Event} {a : Option (List WALEntry)} (hdoes : Does w e a w') :
    a = l.answer e ∧ Coherent w' (l.step e) := by
  cases hdoes with
  | write hfit hwhole => exact ⟨rfl, h.write hfit hwhole⟩
  | crash n => exact ⟨rfl, h.crash n⟩
  | recover hret =>
    obtain ⟨m, hm, hmark⟩ := h.recovers
    obtain ⟨rfl, rfl⟩ := Prod.mk.inj (hret.unique hm)
    exact ⟨rfl, h.fits, h.file, hmark⟩

/-! ### Runs -/

lemma Coherent.run {es : List Event} {as : List (Option (List WALEntry))}
    (hrun : Run w es as w') :
    as = answers Log.step (fun _ => true) Log.answer l es ∧
      Coherent w' (run Log.step l es) := by
  induction hrun generalizing l with
  | nil w => exact ⟨rfl, h⟩
  | cons hdoes _ ih =>
    obtain ⟨rfl, hnext⟩ := h.does hdoes
    obtain ⟨rfl, hlast⟩ := ih hnext
    exact ⟨rfl, hlast⟩

end Coherent

/-- **The log behind every run**: recovery answers from the entries that have survived so far,
what the manager holds of each transaction is the last marker that it has written or recovered,
and recovery comes back. -/
theorem run_log {es : List Event} {as : List (Option (List WALEntry))} {w : WALManager}
    (h : Run {} es as w) :
    as = answers Log.step (fun _ => true) Log.answer {} es ∧
      (∀ t, w.committedTxns[t]? = lastMarker t (run Log.step {} es).known) ∧
      ∃ w', Does w .recover (some (replayed (run Log.step {} es).entries)) w' := by
  obtain ⟨hanswers, hlast⟩ := coherent_empty.run h
  obtain ⟨m, hm, -⟩ := hlast.recovers
  exact ⟨hanswers, hlast.committed, _, .recover hm⟩

/-- A COMMIT of which five bytes are left. -/
def tornCommit : WALManager := { wal := some ((encodeEntry ⟨1, 2, []⟩).take 5) }

theorem run_log_torn :
    [none, none, some []] = answers Log.step (fun _ => true) Log.answer {}
        [.write (.commit 1), .crash 5, .recover] ∧
      (∀ t, tornCommit.committedTxns[t]? =
        lastMarker t (run Log.step {} [.write (.commit 1), .crash 5, .recover]).known) ∧
      ∃ w', Does tornCommit .recover
        (some (replayed (run Log.step {} [.write (.commit 1), .crash 5, .recover]).entries))
        w' := by
  have hempty : walCodec.rest (({} : WALManager).wal.getD []) = [] :=
    Framing.rest_of_none Codec.read_nil
  have hrecover : Returns tornCommit.recover ([], tornCommit) := by
    refine ⟨1, fun m hm => ?_⟩
    obtain ⟨n, rfl⟩ : ∃ n, m = n + 1 := ⟨m - 1, by omega⟩
    rfl
  exact run_log (.cons (.write (c := .commit 1) (by decide) hempty)
    (.cons (.crash _ 5) (.cons (.recover hrecover) (.nil _))))

end Dbx4.WalLive
