import Dbx4.WalCut

/-!
Runs with crashes: appends, crashes that leave a byte prefix of the log, and restarts that
recover and then append again.

Recovery reads up to the first torn entry and leaves the file as it is. A later append goes
behind the torn bytes, where no entry is looked for: what is committed there is lost. When
every append finds a file of whole entries, what is committed after the last crash is
recovered.
-/

namespace Dbx4.WalCrash

open Dbx4.Loops Dbx4.Frames Dbx4.Runs Dbx4.Word32 Dbx4.WalModel Dbx4.WalLog Dbx4.WalCut

inductive Step
  | write (c : Call)
  | crash (n : ℕ)
  | restart (fuel : ℕ)

/-- A crash leaves the first `n` bytes of the file and no manager; a restart makes a manager
and recovers. -/
def step (w : WALManager) : Step → WALManager
  | .write c => c.apply w
  | .crash n => ⟨w.wal.map (List.take n), ∅⟩
  | .restart fuel =>
    match WALManager.recover ⟨w.wal, ∅⟩ fuel with
    | .done (_, w') => w'
    | _ => ⟨w.wal, ∅⟩

/-- The calls before the last crash, and those since. -/
structure History where
  before : List Call := []
  since : List Call := []

def record (h : History) : Step → History
  | .write c => { h with since := h.since ++ [c] }
  | .crash _ => { before := h.before ++ h.since }
  | .restart _ => h

def history (steps : List Step) : History := run record {} steps

/-- Recovery at the end of the run returns every DATA entry of every transaction that wrote
its DATA and COMMIT entries after the last crash and no ABORT after the COMMIT. -/
def Durable (steps : List Step) : Prop :=
  ∃ recovered w, Returns (run step {} steps).recover (recovered, w) ∧
    ∀ t, (∀ c ∈ (history steps).before, c.entry.txnId = t → c.entry.entryType = 3) →
      lastMarker t (entries (history steps).since) = some true →
      ((entries (history steps).since).filter fun e =>
        e.entryType = 1 ∧ e.txnId = t).Sublist recovered

/-- An append finds a file of whole entries, and its own entry fits. -/
def AppendsWhole (w : WALManager) : Step → Prop
  | .write c => Fits c.entry ∧ walCodec.rest (w.wal.getD []) = []
  | _ => True

/-! ### The invariant -/

/-- The file is one of whole entries and a torn one, and ends with what was appended since
the last crash. -/
structure Kept (w : WALManager) (h : History) (es : List WALEntry) (tail : Bytes) : Prop where
  fits : ∀ e ∈ es, Fits e
  torn : walCodec.Torn tail
  file : w.wal.getD [] = walCodec.encodeAll es ++ tail
  since : entries h.since <:+ es

lemma recover_keeps_wal {w w' : WALManager} {fuel : ℕ} {rs : List WALEntry}
    (h : w.recover fuel = .done (rs, w')) : w'.wal = w.wal := by
  unfold WALManager.recover at h
  rcases hw : w.wal with _ | file <;> simp only [hw] at h
  · cases h; rfl
  · rcases h1 : loop (firstPass file) fuel (0, ∅) with s | e | _ <;> simp only [h1] at h
    · simp only [done_bind] at h
      rcases h2 : loop (secondPass s.2 file) fuel (0, []) with r | e | _ <;>
        simp only [h2] at h
      · simp only [done_bind] at h
        cases h; rfl
      · cases h
      · cases h
    · cases h
    · cases h

lemma step_restart_wal (w : WALManager) (fuel : ℕ) : (step w (.restart fuel)).wal = w.wal := by
  simp only [step]
  split
  · rename_i rs w' h
    exact recover_keeps_wal h
  · rfl

lemma step_kept {w : WALManager} {h : History} {s : Step}
    (hk : ∃ es tail, Kept w h es tail) (hs : AppendsWhole w s) :
    ∃ es tail, Kept (step w s) (record h s) es tail := by
  obtain ⟨es, tail, hfits, htorn, hfile, hsince⟩ := hk
  cases s with
  | write c =>
    obtain ⟨hc, hrest⟩ := hs
    have htail : tail = [] := by
      rw [hfile] at hrest
      exact (Codec.rest_encodeAll es hfits htorn).symm.trans hrest
    subst htail
    refine ⟨es ++ [c.entry], [], ?_, .nil, ?_, ?_⟩
    · intro e he
      rcases List.mem_append.mp he with he | he
      · exact hfits e he
      · rw [List.mem_singleton.mp he]; exact hc
    · rw [step, Call.apply_wal, Option.getD_some, hfile]
      simp [Codec.encodeAll, walCodec]
    · obtain ⟨pre, hpre⟩ := hsince
      exact ⟨pre, by rw [← hpre]; simp [record, entries]⟩
  | crash n =>
    obtain ⟨tail', ht', hcut⟩ := Codec.take_encodeAll es hfits htorn n
    have hget : (step w (.crash n)).wal.getD [] = (w.wal.getD []).take n := by
      simp only [step]
      rcases w.wal with _ | file <;> simp
    refine ⟨walCodec.whole n es, tail', fun e he => ?_, ht', ?_, List.nil_suffix⟩
    · exact hfits e ((Codec.whole_initial n es).subset he)
    · rw [hget, hfile, hcut]
  | restart fuel =>
    exact ⟨es, tail, hfits, htorn, by rw [step_restart_wal]; exact hfile, hsince⟩

lemma run_kept {steps : List Step} (hs : Along step AppendsWhole {} steps) :
    ∃ es tail, Kept (run step {} steps) (history steps) es tail := by
  have h0 : ∃ es tail, Kept {} {} es tail :=
    ⟨[], [], by simp, .nil, rfl, List.suffix_refl _⟩
  have hstep : ∀ w h s, (∃ es tail, Kept w h es tail) → AppendsWhole w s →
      ∃ es tail, Kept (step w s) (record h s) es tail := fun _ _ _ => step_kept
  exact run_sim_along hstep h0 hs

/-- **Commits since the last crash are durable** in every run whose appends all find a file
of whole entries. -/
theorem durable_of_appendsWhole (steps : List Step) (hs : Along step AppendsWhole {} steps) :
    Durable steps := by
  obtain ⟨es, tail, hfits, htorn, hfile, pre, hpre⟩ := run_kept hs
  obtain ⟨m, hm, -⟩ := recover_of_sane (run step {} steps)
    (hfile ▸ sane_encodeAll hfits htorn)
  rw [hfile, Codec.records_encodeAll es hfits htorn] at hm
  refine ⟨_, _, hm, fun t _ hlast => ?_⟩
  have hes : lastMarker t es = some true := by
    rw [← hpre, lastMarker_append, hlast, Option.some_or]
  have hkeep : (entries (history steps).since).filter (fun e => e.entryType = 1 ∧ e.txnId = t) =
      ((entries (history steps).since).filter fun e => e.entryType = 1 ∧ e.txnId = t).filter
        fun e => e.entryType = 1 ∧ lastMarker e.txnId es = some true := by
    refine (List.filter_eq_self.mpr fun e he => ?_).symm
    obtain ⟨-, h1, rfl⟩ : _ ∧ _ ∧ e.txnId = t := by simpa using he
    simpa [hes] using h1
  rw [hkeep, replayed]
  refine List.Sublist.filter _ (List.filter_sublist.trans ?_)
  rw [← hpre]
  exact List.sublist_append_right _ _

/-- A torn tail is cut off by a second crash, and the log is written on. -/
theorem durable_after_second_crash :
    Durable [.write (.data 1 [9]), .crash 5, .restart 9, .crash 0, .restart 9,
      .write (.data 2 [7]), .write (.commit 2)] :=
  durable_of_appendsWhole _ (by
    have hrest : walCodec.rest [] = [] := Framing.rest_of_none Codec.read_nil
    have hrest' : walCodec.rest (encodeEntry ⟨2, 1, [7]⟩) = [] := by
      have hfits : ∀ e ∈ [(⟨2, 1, [7]⟩ : WALEntry)], Fits e := by decide
      exact Codec.rest_encodeAll (C := walCodec) _ hfits .nil
    exact ⟨⟨by decide, hrest⟩, trivial, trivial, trivial, trivial, ⟨by decide, hrest⟩,
      ⟨by decide, hrest'⟩, trivial⟩)

/-! ### Appending behind a torn entry -/

/-- A crash in the first entry, a restart, and a transaction that commits. -/
def tornRun : List Step :=
  [.write (.data 1 [9]), .crash 5, .restart 9, .write (.data 2 [7]), .write (.commit 2)]

/-- The five torn bytes and the next seven are taken for a header that announces 256 bytes, so
nothing is recovered. -/
theorem not_durable_tornRun : ¬ Durable tornRun := by
  rintro ⟨recovered, w, hr, hdur⟩
  set file := (run step {} tornRun).wal.getD [] with hfile
  have hread : walCodec.read file = none := by rw [hfile]; decide
  have hsane : Sane file := by
    intro p hp
    obtain rfl := hp.eq_zero hread
    intro _
    rw [hfile]; decide
  obtain ⟨m, hm, -⟩ := recover_of_sane (run step {} tornRun) hsane
  rw [← hfile, Framing.records_of_none hread] at hm
  obtain ⟨rfl, -⟩ := Prod.mk.inj (hr.unique hm)
  have hsub := hdur 2 (by decide) (by decide)
  exact absurd hsub (by decide)

end Dbx4.WalCrash
