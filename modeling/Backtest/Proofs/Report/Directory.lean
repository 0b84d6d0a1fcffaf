import Backtest.Proofs.Report.RoundTrip
import Backtest.Proofs.WalkForward.Records

/-!
# The directory of a result

The directory of a result is named for its symbol and the front of its fingerprint. Of the symbol
only harmless characters are left, but the fingerprint is taken as it is. That of a run is made of
hexadecimal digits, so the files of a run stand in a directory right below the chosen one. A result
that was read from a text has any fingerprint, and a separator in it starts another name: the files
are then further down, or anywhere if two points follow.

## Main definitions

* `steps` — the names that a path goes through, and `steps_below` for a path below a directory.
* `IsComponent` — what can be the name of a single step.
* `isComponent_directoryName_iff` — a separator in the fingerprint is all that can go wrong.
* `directory_of_ofResult` — where the files of a result are.
-/
namespace Backtest.Report

variable {root name : String} {r : RunResult} {a : Artifacts}

/-! ## Paths -/

/-- The names that a path goes through. An empty name and a single point lead nowhere. -/
def steps (path : String) : List String :=
  ((path.toList.splitOn '/').map String.ofList).filter fun n => n ≠ "" ∧ n ≠ "."

theorem steps_ofList_append (front back : List Char) :
    steps (String.ofList (front ++ '/' :: back)) =
      steps (String.ofList front) ++ steps (String.ofList back) := by
  simp [steps, List.splitOn_append_cons_self]

/-- A path below a directory goes through the directory first. -/
theorem steps_below (root name : String) : steps (below root name) = steps root ++ steps name := by
  rw [below]
  split
  · rename_i hlast
    have hempty : root = "" := by
      rw [← String.toList_eq_nil_iff, ← List.getLast?_eq_none_iff]
      exact hlast
    rw [hempty]
    rfl
  · rename_i hlast
    obtain ⟨front, hroot⟩ := List.getLast?_eq_some_iff.1 hlast
    have hname : root ++ name = String.ofList (front ++ '/' :: name.toList) := by
      rw [← String.toList_inj, String.toList_append, hroot]
      simp
    have hstart : root = String.ofList (front ++ '/' :: []) := by
      rw [← hroot, String.ofList_toList]
    have hnil : steps (String.ofList []) = [] := by decide
    rw [hname, steps_ofList_append, String.ofList_toList, hstart, steps_ofList_append, hnil,
      List.append_nil]
  · have hname : root ++ "/" ++ name = String.ofList (root.toList ++ '/' :: name.toList) := by
      rw [← String.toList_inj]
      simp
    rw [hname, steps_ofList_append, String.ofList_toList, String.ofList_toList]

/-- The name of a single step: it is not empty, no point or pair of points, and has no separator. -/
def IsComponent (name : String) : Prop :=
  name ≠ "" ∧ name ≠ "." ∧ name ≠ ".." ∧ '/' ∉ name.toList

theorem steps_of_isComponent (h : IsComponent name) : steps name = [name] := by
  obtain ⟨hempty, hpoint, -, hslash⟩ := h
  simp [steps, List.splitOn_eq_singleton hslash, hempty, hpoint]

/-! ## The name -/

theorem safeChar_ne_slash (c : Char) : safeChar c ≠ '/' := by
  intro h
  rw [safeChar] at h
  split at h
  · rename_i hsafe
    rw [h] at hsafe
    exact absurd hsafe (by decide)
  · exact absurd h (by decide)

/-- A name with a line in it is that of a single step unless it has a separator. -/
theorem isComponent_ofList_iff {cs : List Char} (hline : '_' ∈ cs) :
    IsComponent (String.ofList cs) ↔ '/' ∉ cs := by
  have hne : ∀ t : String, '_' ∉ t.toList → String.ofList cs ≠ t := by
    rintro t ht rfl
    rw [String.toList_ofList] at ht
    exact ht hline
  rw [IsComponent, String.toList_ofList]
  exact ⟨fun h => h.2.2.2,
    fun h => ⟨hne "" (by decide), hne "." (by decide), hne ".." (by decide), h⟩⟩

theorem directoryName_eq (r : RunResult) : directoryName r = String.ofList
    (r.symbol.toList.map safeChar ++ '_' :: r.configFingerprint.toList.take 12) := by
  rw [← String.toList_inj]
  simp [directoryName]

/-- Whatever the symbol is, the separators behind it are those of the fingerprint. -/
theorem slash_mem_name_iff (symbol : String) (cs : List Char) :
    '/' ∈ symbol.toList.map safeChar ++ '_' :: cs ↔ '/' ∈ cs := by
  simp [safeChar_ne_slash]

theorem isComponent_name_iff (symbol : String) (cs : List Char) :
    IsComponent (String.ofList (symbol.toList.map safeChar ++ '_' :: cs)) ↔ '/' ∉ cs := by
  rw [isComponent_ofList_iff (List.mem_append_right _ List.mem_cons_self), slash_mem_name_iff]

theorem isComponent_directoryName_iff :
    IsComponent (directoryName r) ↔ '/' ∉ r.configFingerprint.toList.take 12 := by
  rw [directoryName_eq, isComponent_name_iff]

/-- A digest has no separator. -/
theorem slash_not_mem_hexDigest (bytes : List UInt8) : '/' ∉ (Blake3.hexDigest bytes).toList := by
  have hdigit : ∀ n < 16, Nat.digitChar n ≠ '/' := by decide
  rw [Blake3.hexDigest, String.toList_ofList, List.mem_flatMap]
  rintro ⟨b, -, hb⟩
  have hbyte := b.toNat_lt
  rcases List.mem_cons.1 hb with h | h
  · exact hdigit _ (by omega) h.symm
  · exact hdigit _ (by omega) (List.mem_singleton.1 h).symm

/-! ## The directory -/

theorem directory_eq_of_ofResult (h : Artifacts.ofResult root r = .ok a) :
    a.directory = below root (directoryName r) := by
  rw [Artifacts.ofResult] at h
  split at h
  · cases h
    rfl
  · cases h

/-- **Artifacts stand in a directory right below the chosen one, unless the fingerprint has a
separator in its front.** The path of the directory goes through the chosen one and then through the
name of the result, which is that of a single step exactly if the front of the fingerprint has no
separator, whatever the symbol is. That of a run has none. Behind the first separator the rest of
the front is taken as further steps. -/
theorem directory_of_ofResult (h : Artifacts.ofResult root r = .ok a) :
    (IsComponent (directoryName r) ↔ '/' ∉ r.configFingerprint.toList.take 12) ∧
      (IsComponent (directoryName r) → steps a.directory = steps root ++ [directoryName r]) ∧
      (∀ request series stop, (WalkForward.runUntil request series stop).outcome = .ok r →
        IsComponent (directoryName r)) ∧
      ∀ front back, '/' ∉ front → r.configFingerprint.toList.take 12 = front ++ '/' :: back →
        steps a.directory = steps root ++
          String.ofList (r.symbol.toList.map safeChar ++ '_' :: front) ::
            steps (String.ofList back) := by
  rw [directory_eq_of_ofResult h, steps_below]
  refine ⟨isComponent_directoryName_iff, fun hname => ?_, fun request series stop hrun => ?_,
    fun front back hfront htaken => ?_⟩
  · rw [steps_of_isComponent hname]
  · obtain ⟨space, ws, status, -, -, -, rfl⟩ := WalkForward.runUntil_outcome_eq_ok.1 hrun
    rw [isComponent_directoryName_iff]
    exact fun hslash => slash_not_mem_hexDigest _ (List.mem_of_mem_take hslash)
  · have hfirst := (isComponent_name_iff r.symbol front).2 hfront
    rw [directoryName_eq, htaken, ← List.cons_append, ← List.append_assoc, steps_ofList_append,
      steps_of_isComponent hfirst]
    rfl

/-- Pairs of points behind a separator lead out of the chosen directory. -/
example : steps (below "out" (directoryName { sampleResult 1 with
    configFingerprint := "/../../esc" })) = ["out", "BTC_USDT_", "..", "..", "esc"] := by decide

/-- A result that was read from a text with a separator in its fingerprint. -/
def nestedResult : RunResult := { sampleResult 1 with configFingerprint := "/sub" }

theorem exists_ofResult_nestedResult : ∃ a, Artifacts.ofResult "out" nestedResult = .ok a := by
  have hpath : isPath (below "out" (directoryName nestedResult)) = true := by decide +kernel
  simp only [Artifacts.ofResult, if_pos hpath]
  exact ⟨_, rfl⟩

theorem directory_of_ofResult_nestedResult : ∃ a, Artifacts.ofResult "out" nestedResult = .ok a ∧
    steps a.directory = ["out", "BTC_USDT_", "sub"] := by
  obtain ⟨a, ha⟩ := exists_ofResult_nestedResult
  refine ⟨a, ha, ?_⟩
  obtain ⟨-, -, -, hbehind⟩ := directory_of_ofResult ha
  rw [hbehind [] "sub".toList List.not_mem_nil (by decide)]
  decide

/-- Not every directory of artifacts is right below the chosen one. -/
theorem not_all_right_below : ¬ ∀ (root : String) (r : RunResult) (a : Artifacts),
    Artifacts.ofResult root r = .ok a →
      ∃ name, IsComponent name ∧ steps a.directory = steps root ++ [name] := by
  intro hall
  obtain ⟨a, ha⟩ := exists_ofResult_nestedResult
  obtain ⟨name, -, hname⟩ := hall _ _ a ha
  have hsteps : steps a.directory = ["out", "BTC_USDT_", "sub"] := by
    rw [directory_eq_of_ofResult ha]
    decide
  have hroot : steps "out" = ["out"] := by decide
  rw [hsteps, hroot] at hname
  simp at hname

end Backtest.Report
