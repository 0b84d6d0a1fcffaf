import Backtest.Proofs.Outcome
import Backtest.Proofs.Simulation.Entries

/-!
# Later candles do not change earlier decisions

Running a list of candles and running it with more candles behind it decide alike on every candle of
the list. Only its last candle can tell the difference: where the data ends, a position is closed
for that reason alone and none is opened, unless positions may stay open.

## Main definitions

* `Replay.closings` — each trade with the point of the equity curve that it leaves behind.
* `SharesPast` — how the run of a list is contained in a run that goes on.
* `run_append_sharesPast` — what the run of a list shares with that of any longer list.
-/
namespace Backtest

/-- Each trade with the point of the equity curve that it leaves behind. -/
def Replay.closings (r : Replay) : List (Trade × BalancePoint) := r.trades.zip r.equity.tail

/-- The entries of the trades that are closed from an index on, then that of the open trade. -/
def Replay.entriesFrom (r : Replay) (k : Nat) : List Entry :=
  (r.trades.filter fun t => decide (k ≤ t.exitIndex)).map (·.entry) ++
    (r.openTrade.map (·.entry)).toList

/-- Whether a trade was closed for another reason than the end of the data. -/
def Trade.isDecided (t : Trade) : Bool := decide (t.exitReason ≠ .endOfData)

namespace Simulation

variable {params : CrossoverParams} {settings : AccountSettings}

/-! ## Closing on one candle -/

/-- The exits that the closes decide come before the end of the data and do not know of it. -/
theorem exitOn_eq_or (s : SimulationState) (c : Candle) (p : Position) (k : Nat) (isLast : Bool) :
    s.exitOn c ⟨params, settings, k, isLast⟩ p =
      (s.exitOn c ⟨params, settings, k, false⟩ p).or
        (if isLast && settings.closeAtEnd then some .endOfData else none) := by
  have hdecided (b : Bool) : ExitReason.decided.find? ((p.track c.close params).meets c.close
      (s.crossOn c.close) ⟨params, settings, k, b⟩) = ExitReason.decided.find?
        ((p.track c.close params).meets c.close (s.crossOn c.close)
          ⟨params, settings, k, false⟩) := by
    simp only [ExitReason.decided, List.find?_cons, List.find?_nil, Position.meets]
  simp only [SimulationState.exitOn, Position.exitFor?_eq_find?, ExitReason.precedence_eq,
    List.find?_append]
  have hend (b : Bool) : [ExitReason.endOfData].find? ((p.track c.close params).meets c.close
      (s.crossOn c.close) ⟨params, settings, k, b⟩) =
        if b && settings.closeAtEnd then some .endOfData else none := by
    simp only [List.find?_cons, List.find?_nil, Position.meets]
    cases b && settings.closeAtEnd <;> rfl
  rw [hdecided isLast, hend isLast, hend false, Option.or_assoc]
  rfl

theorem exitOn_ne_endOfData (s : SimulationState) (c : Candle) (p : Position) (k : Nat) :
    s.exitOn c ⟨params, settings, k, false⟩ p ≠ some .endOfData := by
  rw [SimulationState.exitOn, Position.exitFor?_eq_find?]
  intro h
  have hmeets := List.find?_some h
  cases hmeets

/-- A candle that is not the last books no trade for the end of the data. -/
theorem isDecided_of_mem_booked {s : SimulationState} {c : Candle} {k : Nat} {t : Trade × Float}
    (h : t ∈ booked (s.step c ⟨params, settings, k, false⟩)) : t.1.isDecided = true := by
  rw [booked_step, Option.mem_toList, Option.bind_eq_some_iff] at h
  obtain ⟨p, -, h⟩ := h
  obtain ⟨reason, hreason, rfl⟩ := Option.map_eq_some_iff.1 h
  rw [Trade.isDecided, decide_eq_true_eq]
  intro heq
  change reason = .endOfData at heq
  rw [heq] at hreason
  exact exitOn_ne_endOfData s c p k hreason

/-- Apart from a trade closed for the end of the data, the last candle books what it would book if
others followed. -/
theorem filter_booked_isLast (s : SimulationState) (c : Candle) (k : Nat) :
    (booked (s.step c ⟨params, settings, k, true⟩)).filter (·.1.isDecided) =
      booked (s.step c ⟨params, settings, k, false⟩) := by
  have hall : (booked (s.step c ⟨params, settings, k, false⟩)).filter (·.1.isDecided) =
      booked (s.step c ⟨params, settings, k, false⟩) :=
    List.filter_eq_self.2 fun t ht => isDecided_of_mem_booked ht
  cases hpos : s.account.position with
  | none => rw [booked_step, booked_step, hpos]; rfl
  | some p =>
    cases hexit : s.exitOn c ⟨params, settings, k, false⟩ p with
    | some reason =>
      have hexit' : s.exitOn c ⟨params, settings, k, true⟩ p = some reason := by
        rw [exitOn_eq_or, hexit]; rfl
      rw [← hall, booked_step, booked_step, hpos, Option.bind_some, Option.bind_some, hexit, hexit']
      rfl
    | none =>
      have hexit' : s.exitOn c ⟨params, settings, k, true⟩ p =
          if settings.closeAtEnd then some .endOfData else none := by
        rw [exitOn_eq_or, hexit]; rfl
      rw [booked_step, booked_step, hpos, Option.bind_some, Option.bind_some, hexit, hexit']
      cases settings.closeAtEnd <;> rfl

/-! ## Where trades are closed -/

theorem mem_advance {k : Nat} {s : SimulationState} {xs : List Candle} {t : Trade × Float}
    (h : t ∈ (advance params settings k s xs).2) :
    t.1.isDecided = true ∧ t.1.exitIndex < k + xs.length := by
  induction xs generalizing k s with
  | nil => cases h
  | cons c rest ih =>
    rw [advance, List.mem_append] at h
    rw [List.length_cons]
    rcases h with h | h
    · have hindex := exitIndex_of_mem_booked h
      exact ⟨isDecided_of_mem_booked h, by simp only at hindex; omega⟩
    · obtain ⟨hdecided, hlt⟩ := ih h
      exact ⟨hdecided, by omega⟩

theorem le_exitIndex_of_mem_replay {k : Nat} {s : SimulationState} {ys : List Candle}
    {t : Trade × Float} (h : t ∈ (replay params settings k s ys).2) : k ≤ t.1.exitIndex := by
  induction ys generalizing k s with
  | nil => cases h
  | cons c rest ih =>
    rw [replay_cons, List.mem_append] at h
    rcases h with h | h
    · exact Nat.le_of_eq (exitIndex_of_mem_booked h).symm
    · exact Nat.le_of_succ_le (ih h)

/-! ## The record up to a cut -/

/-- The decided trades of a list are those of advancing over it. -/
theorem filter_replay_isDecided (k : Nat) (s : SimulationState) (xs : List Candle) :
    (replay params settings k s xs).2.filter (·.1.isDecided) =
      (advance params settings k s xs).2 := by
  rcases List.eq_nil_or_concat xs with rfl | ⟨zs, c, rfl⟩
  · rfl
  · rw [List.concat_eq_append, replay_concat, advance_concat, List.filter_append,
      filter_booked_isLast]
    congr 1
    exact List.filter_eq_self.2 fun t ht => (mem_advance ht).1

/-- The trades of a longer list that are closed within the first part are those of advancing over
it. -/
theorem filter_replay_append (k : Nat) (s : SimulationState) (xs : List Candle) {ys : List Candle}
    (hys : ys ≠ []) :
    (replay params settings k s (xs ++ ys)).2.filter
        (fun t => decide (t.1.exitIndex < k + xs.length)) =
      (advance params settings k s xs).2 := by
  rw [replay_append k s xs hys, List.filter_append]
  have hfront : (advance params settings k s xs).2.filter
      (fun t => decide (t.1.exitIndex < k + xs.length)) = (advance params settings k s xs).2 :=
    List.filter_eq_self.2 fun t ht => decide_eq_true (mem_advance ht).2
  have hback : (replay params settings (k + xs.length)
      (advance params settings k s xs).1 ys).2.filter
        (fun t => decide (t.1.exitIndex < k + xs.length)) = [] := by
    rw [List.filter_eq_nil_iff]
    intro t ht
    have hle := le_exitIndex_of_mem_replay ht
    rw [decide_eq_true_eq]
    omega
  rw [hfront, hback, List.append_nil]

/-- The decided trades of a list are the trades of a longer one that are closed within it. -/
theorem filter_replay_isDecided_eq (params : CrossoverParams) (settings : AccountSettings) (k : Nat)
    (s : SimulationState) (xs : List Candle) {ys : List Candle} (hys : ys ≠ []) :
    (replay params settings k s xs).2.filter (·.1.isDecided) =
      (replay params settings k s (xs ++ ys)).2.filter
        (fun t => decide (t.1.exitIndex < k + xs.length)) :=
  (filter_replay_isDecided k s xs).trans (filter_replay_append k s xs hys).symm

/-- Where positions may stay open, the end of the data changes nothing. -/
theorem step_of_stays_open (h : settings.closeAtEnd = false) (s : SimulationState) (c : Candle)
    (k : Nat) (isLast : Bool) :
    s.step c ⟨params, settings, k, isLast⟩ = s.step c ⟨params, settings, k, false⟩ := by
  simp only [SimulationState.step, Account.settle, Account.tryEnter, Account.mayEnter,
    Position.exitFor?, h, Bool.and_false, Bool.not_false, Bool.or_true]

theorem replay_eq_advance (h : settings.closeAtEnd = false) (k : Nat) (s : SimulationState)
    (xs : List Candle) : replay params settings k s xs = advance params settings k s xs := by
  rcases List.eq_nil_or_concat xs with rfl | ⟨zs, c, rfl⟩
  · rfl
  · rw [List.concat_eq_append, replay_concat, advance_concat, step_of_stays_open h]

/-! ## Reports -/

theorem closings_result (first : Candle) (candles : List Candle) (last : SimulationState)
    (ts : List (Trade × Float)) :
    (result settings first candles last ts).closings =
      ts.map fun t => (t.1, ⟨t.1.exitTime, t.2⟩) := List.zip_map'

theorem entriesFrom_result (first : Candle) (candles : List Candle) (last : SimulationState)
    (ts : List (Trade × Float)) (k : Nat) :
    (result settings first candles last ts).entriesFrom k =
      entries (last, ts.filter fun t => decide (k ≤ t.1.exitIndex)) := by
  rw [Replay.entriesFrom, trades_result, entries, List.filter_map, List.map_map]
  congr 1
  rw [heldEntry, result, Option.map_map]
  rfl

/-- Each trade has its point of the equity curve. -/
theorem map_fst_closings_runValid (candles : List Candle) :
    (runValid candles params settings).closings.map (·.1) =
      (runValid candles params settings).trades := by
  cases candles with
  | nil => rfl
  | cons c rest =>
    rw [runValid_eq_result (List.head?_cons), closings_result, trades_result, List.map_map]
    rfl

/-- How the run of a list of `k` candles is contained in the run that goes on with others. -/
structure SharesPast (k : Nat) (settings : AccountSettings) (short long : Replay) : Prop where
  /-- The trades that were not closed for the end of the data are those closed before the cut. -/
  trades : short.trades.filter (·.isDecided) = long.trades.filter fun t => decide (t.exitIndex < k)
  paired : short.closings.map (·.1) = short.trades ∧ long.closings.map (·.1) = long.trades
  /-- So are their points of the equity curve. -/
  closings : short.closings.filter (·.1.isDecided) =
    long.closings.filter fun t => decide (t.1.exitIndex < k)
  /-- A position that is reported open is the first one that the longer run closes or holds after
  the cut. -/
  held : settings.closeAtEnd = false → ∀ t, short.openTrade = some t →
    (long.entriesFrom k).head? = some t.entry
  /-- If none is, everything that the longer run closes or holds after the cut is opened there. -/
  flat : settings.closeAtEnd = false → short.openTrade = none →
    ∀ e ∈ long.entriesFrom k, k ≤ e.index

/-- Where positions may stay open, what a longer list closes or holds after a cut are the entries of
the replay that goes on from there. -/
theorem entriesFrom_result_append (params : CrossoverParams) (h : settings.closeAtEnd = false)
    (first : Candle) (xs : List Candle) {ys : List Candle} (hys : ys ≠ []) :
    ∃ added, (result settings first (xs ++ ys)
        (replay params settings 0 (.new params settings) (xs ++ ys)).1
        (replay params settings 0 (.new params settings) (xs ++ ys)).2).entriesFrom xs.length =
          heldEntry (replay params settings 0 (.new params settings) xs).1 ++ added ∧
      ∀ e ∈ added, xs.length ≤ e.index := by
  rw [entriesFrom_result, replay_append 0 _ xs hys, replay_eq_advance h 0 _ xs,
    List.filter_append, Nat.zero_add]
  have hfront : (advance params settings 0 (.new params settings) xs).2.filter
      (fun t => decide (xs.length ≤ t.1.exitIndex)) = [] := by
    rw [List.filter_eq_nil_iff]
    intro t ht
    have hlt := (mem_advance ht).2
    rw [decide_eq_true_eq]
    omega
  have hback : (replay params settings xs.length
      (advance params settings 0 (.new params settings) xs).1 ys).2.filter
        (fun t => decide (xs.length ≤ t.1.exitIndex)) =
      (replay params settings xs.length
        (advance params settings 0 (.new params settings) xs).1 ys).2 :=
    List.filter_eq_self.2 fun t ht => decide_eq_true (le_exitIndex_of_mem_replay ht)
  rw [hfront, hback, List.nil_append]
  exact entries_replay _ _ _

theorem sharesPast_runValid (xs : List Candle) {ys : List Candle} (hys : ys ≠ []) :
    SharesPast xs.length settings (runValid xs params settings)
      (runValid (xs ++ ys) params settings) := by
  cases xs with
  | nil =>
    refine ⟨?_, ⟨rfl, map_fst_closings_runValid _⟩, ?_, fun _ t ht => ?_, ?_⟩
    · exact (List.filter_eq_nil_iff.2 fun t _ => by simp).symm
    · exact (List.filter_eq_nil_iff.2 fun t _ => by simp).symm
    · cases ht
    · intro _ _ e _
      exact Nat.zero_le _
  | cons c rest =>
    have hlong : (c :: rest ++ ys).head? = some c := rfl
    rw [runValid_eq_result List.head?_cons, runValid_eq_result hlong]
    have hrecord := filter_replay_isDecided_eq params settings 0 (.new params settings)
      (c :: rest) hys
    rw [Nat.zero_add] at hrecord
    refine ⟨?_, ?_, ?_, ?_, ?_⟩
    · rw [trades_result, trades_result, List.filter_map, List.filter_map]
      exact congrArg (List.map (·.1)) hrecord
    · simp only [closings_result, trades_result, List.map_map]
      exact ⟨rfl, rfl⟩
    · rw [closings_result, closings_result, List.filter_map, List.filter_map]
      exact congrArg (List.map _) hrecord
    · intro hopen t ht
      obtain ⟨added, hentries, -⟩ :=
        entriesFrom_result_append params hopen c (c :: rest) hys
      obtain ⟨p, hp, rfl⟩ := Option.map_eq_some_iff.1 ht
      rw [heldEntry, hp] at hentries
      rw [hentries, Position.entry_report]
      rfl
    · intro hopen hnone
      obtain ⟨added, hentries, hadded⟩ :=
        entriesFrom_result_append params hopen c (c :: rest) hys
      rw [heldEntry, Option.map_eq_none_iff.1 hnone] at hentries
      rw [hentries]
      exact hadded

/-- Later candles do not change what was decided before them. -/
theorem run_append_sharesPast {xs ys : List Candle} (hparams : params.fault? = none)
    (hsettings : settings.fault? = none) (hpriced : ∀ c ∈ xs ++ ys, c.isPriced = true)
    (hys : ys ≠ []) :
    ∃ short long, run xs params settings = .ok short ∧ run (xs ++ ys) params settings = .ok long ∧
      SharesPast xs.length settings short long := by
  refine ⟨_, _, run_eq_ok_iff.2 ⟨hparams, hsettings, ?_, rfl⟩,
    run_eq_ok_iff.2 ⟨hparams, hsettings, hpriced, rfl⟩, sharesPast_runValid xs hys⟩
  intro c hc
  exact hpriced c (List.mem_append_left ys hc)

/-- The first part ends with a long that was opened on its last candle. The first candle of the
second part closes it, and the last one opens another. -/
theorem run_append_sharesPast_hourly :
    ∃ short long,
      run (hourly 0 [10, 10, 12]) quickCrossover { closeAtEnd := false } = .ok short ∧
      run (hourly 0 [10, 10, 12] ++ hourly 3 [12.5, 11, 11.5]) quickCrossover
        { closeAtEnd := false } = .ok long ∧
      SharesPast 3 { closeAtEnd := false } short long ∧
      short.trades = [] ∧ short.openTrade.map (fun t => (t.side, t.entryIndex)) = some (.long, 2) ∧
      long.trades.map (fun t => (t.side, t.entryIndex, t.exitIndex)) = [(.long, 2, 3)] ∧
      long.openTrade.map (·.entryIndex) = some 5 := by
  have hparams : quickCrossover.fault? = none := by decide +kernel
  have hsettings : AccountSettings.fault? { closeAtEnd := false } = none := by decide +kernel
  have hpriced : ∀ c ∈ hourly 0 [10, 10, 12] ++ hourly 3 [12.5, 11, 11.5], c.isPriced = true := by
    decide +kernel
  obtain ⟨short, long, hshort, hlong, hshares⟩ :=
    run_append_sharesPast hparams hsettings hpriced (by decide +kernel)
  obtain ⟨r, hr, hfigures⟩ := exists_of_toOption_map (show
    (run (hourly 0 [10, 10, 12]) quickCrossover { closeAtEnd := false }).toOption.map (fun r =>
      (r.trades.length, r.openTrade.map fun t => (t.side, t.entryIndex))) =
        some (0, some (.long, 2)) by decide +kernel)
  obtain ⟨r', hr', hfigures'⟩ := exists_of_toOption_map (show
    (run (hourly 0 [10, 10, 12] ++ hourly 3 [12.5, 11, 11.5]) quickCrossover
      { closeAtEnd := false }).toOption.map (fun r =>
        (r.trades.map fun t => (t.side, t.entryIndex, t.exitIndex),
          r.openTrade.map (·.entryIndex))) = some ([(.long, 2, 3)], some 5) by decide +kernel)
  cases hshort.symm.trans hr
  cases hlong.symm.trans hr'
  obtain ⟨htrades, hopen⟩ := Prod.mk.inj hfigures
  obtain ⟨htrades', hopen'⟩ := Prod.mk.inj hfigures'
  exact ⟨_, _, hshort, hlong, hshares, List.length_eq_zero_iff.1 htrades, hopen, htrades', hopen'⟩

end Simulation
end Backtest
