import Dbx4.WalLog

/-!
What recovery returns after the calls of one process: from the whole file, and from a file
cut at any byte by a crash.
-/

namespace Dbx4.WalCut

open Dbx4.Loops Dbx4.Frames Dbx4.Runs Dbx4.Word32 Dbx4.WalModel Dbx4.WalLog

/-- The manager after `calls`, the log absent at first. -/
def writeAll (calls : List Call) : WALManager := run Call.apply {} calls

def entries (calls : List Call) : List WALEntry := calls.map Call.entry

lemma run_apply_wal (w : WALManager) (calls : List Call) :
    (run Call.apply w calls).wal.getD [] =
      w.wal.getD [] ++ walCodec.encodeAll (entries calls) := by
  induction calls generalizing w with
  | nil => simp [entries]
  | cons c calls ih =>
    rw [run_cons, ih, Call.apply_wal]
    simp [entries, walCodec, Codec.encodeAll]

lemma fits_entries {calls : List Call} (hfit : ∀ c ∈ calls, Fits c.entry) :
    ∀ e ∈ entries calls, Fits e := by
  intro e he
  obtain ⟨c, hc, rfl⟩ := List.mem_map.mp he
  exact hfit c hc

/-- **Recovery after a crash**: from the file of `calls` cut to its first `n` bytes, recovery
returns the data of the entries whole in the cut whose transaction has COMMIT as its last
marker there, and has every transaction with a marker there as the last one says. -/
theorem recover_cut (calls : List Call) (hfit : ∀ c ∈ calls, Fits c.entry) (n : ℕ)
    (committedTxns : Std.ExtTreeMap Int32 Bool) :
    ∃ m, Returns
        (WALManager.recover ⟨(writeAll calls).wal.map (List.take n), committedTxns⟩)
        ((walCodec.whole n (entries calls)).filter fun e =>
            e.entryType = 1 ∧
              lastMarker e.txnId (walCodec.whole n (entries calls)) = some true,
          ⟨(writeAll calls).wal.map (List.take n), m⟩) ∧
      ∀ t, m[t]? = lastMarker t (walCodec.whole n (entries calls)) := by
  have hv := fits_entries hfit
  have hwhole : ∀ e ∈ walCodec.whole n (entries calls), Fits e := fun e he =>
    hv e ((Codec.whole_initial n _).subset he)
  obtain ⟨tail, ht, hcut⟩ :=
    Codec.take_encodeAll (C := walCodec) (entries calls) hv Codec.Torn.nil n
  set w : WALManager := ⟨(writeAll calls).wal.map (List.take n), committedTxns⟩ with hw
  have hfile : w.wal.getD [] = walCodec.encodeAll (walCodec.whole n (entries calls)) ++ tail := by
    have hget : w.wal.getD [] = ((writeAll calls).wal.getD []).take n := by
      rw [hw]
      rcases (writeAll calls).wal with _ | file <;> simp
    rw [hget, writeAll, run_apply_wal, ← hcut, List.append_nil]
    rfl
  have hrec : walCodec.records (w.wal.getD []) = walCodec.whole n (entries calls) := by
    rw [hfile]; exact Codec.records_encodeAll _ hwhole ht
  obtain ⟨m, hm, hmark⟩ := recover_of_sane w (hfile ▸ sane_encodeAll hwhole ht)
  rw [hrec] at hm hmark
  exact ⟨m, hm, hmark⟩

/-- Two transactions write, one commits, and the crash tears the last entry. -/
theorem recover_cut_torn :
    ∃ m, Returns
        (WALManager.recover ⟨(writeAll [.data 7 [1, 2], .data 8 [3], .commit 7,
          .data 7 [4]]).wal.map (List.take 50), ∅⟩)
        ([⟨7, 1, [1, 2]⟩], ⟨(writeAll [.data 7 [1, 2], .data 8 [3], .commit 7,
          .data 7 [4]]).wal.map (List.take 50), m⟩) ∧
      ∀ t, m[t]? = lastMarker t [⟨7, 1, [1, 2]⟩, ⟨8, 1, [3]⟩, ⟨7, 2, []⟩] :=
  recover_cut [.data 7 [1, 2], .data 8 [3], .commit 7, .data 7 [4]] (by decide) 50 ∅

/-! ### The whole file -/

lemma recover_writeAll (calls : List Call) (hfit : ∀ c ∈ calls, Fits c.entry) :
    ∃ w, Returns (writeAll calls).recover (replayed (entries calls), w) ∧
      ∀ t, w.committedTxns[t]? = lastMarker t (entries calls) := by
  have hv := fits_entries hfit
  have hfile : (writeAll calls).wal.getD [] = walCodec.encodeAll (entries calls) ++ [] := by
    rw [writeAll, run_apply_wal]; simp
  obtain ⟨m, hm, hmark⟩ := recover_of_sane (writeAll calls) (hfile ▸ sane_encodeAll hv .nil)
  rw [hfile, Codec.records_encodeAll _ hv .nil] at hm hmark
  exact ⟨_, hm, hmark⟩

/-- The DATA entries that are followed by a COMMIT of their transaction. -/
def covered : List WALEntry → List WALEntry
  | [] => []
  | e :: es =>
    if e.entryType = 1 ∧ ∃ c ∈ es, c.entryType = 2 ∧ c.txnId = e.txnId then e :: covered es
    else covered es

lemma exists_commit {t : Int32} {es : List WALEntry} (h : lastMarker t es = some true) :
    ∃ c ∈ es, c.entryType = 2 ∧ c.txnId = t := by
  have hmem := List.mem_of_getLast? h
  obtain ⟨c, hc, hmark⟩ := List.mem_filterMap.mp hmem
  unfold marker at hmark
  split_ifs at hmark with ht h2 h3
  · exact ⟨c, hc, h2, ht⟩
  · simp at hmark

end Dbx4.WalCut
