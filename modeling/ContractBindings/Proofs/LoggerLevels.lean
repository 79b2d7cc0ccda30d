import Mathlib.Data.List.Induction
import Mathlib.Order.Fin.Basic
import ContractBindings.Log
import ContractBindings.Proofs.AssemblySteps

namespace ContractBindings

/-!
# Levels after any calls

Loggers are asked for and the switch is turned in any order, any number of times.  The level of
a logger is told by its last request, by the switch, and by whether it was tracked already when
it was last asked for: a level of its own does not end the tracking.

Main statement: a logger that was asked for without a level last has the level of the switch.
One that was asked for with a level last has that level, unless it was asked for without one
before and the switch was turned since, after which it has the level of the switch again.
-/

/-- What can be done with loggers. -/
inductive LoggerCall where
  /-- To ask for a logger, with a level of its own or without one. -/
  | get (name : Text) (level : Option Int)
  | setDebug (debug : Bool)
  deriving DecidableEq

namespace LoggerCall

/-- The logger that is asked for. -/
def requested? : LoggerCall → Option Text
  | .get name _ => some (LoggerRegistry.logger name)
  | .setDebug _ => none

/-- The position that the switch is turned to. -/
def switched? : LoggerCall → Option Bool
  | .get _ _ => none
  | .setDebug debug => some debug

/-- Whether the logger of a name is asked for. -/
def Requests (call : LoggerCall) (name : Text) : Prop :=
  call.requested? = some (LoggerRegistry.logger name)

/-- Whether the logger of a name is asked for without a level of its own. -/
def Tracks (call : LoggerCall) (name : Text) : Prop :=
  call.Requests name ∧ ∃ other, call = .get other none

end LoggerCall

namespace Keyed

/-- Values that are changed in place are found under the same keys. -/
theorem get?_map
    (change : Text → α → β)
    (entries : Keyed α)
    (wanted : Text) :
    Keyed.get? wanted (entries.map fun (key, value) => (key, change key value)) =
      (entries.get? wanted).map (change wanted) := by
  induction entries with
  | nil =>
      rfl
  | cons entry entries inductionHypothesis =>
      obtain ⟨key, value⟩ := entry
      rw [List.map_cons, get?_cons, get?_cons, inductionHypothesis]
      by_cases isWanted : wanted = key
      · rw [if_pos isWanted, if_pos isWanted, isWanted]
        rfl
      · rw [if_neg isWanted, if_neg isWanted]

end Keyed

namespace LoggerRegistry

/-!
## One call
-/

/-- The loggers after a call. -/
def after (registry : LoggerRegistry) : LoggerCall → LoggerRegistry
  | .get name level => registry.get name level
  | .setDebug debug => registry.setDebug debug

/-- A logger that is asked for gets its own level or that of the switch, and the others keep
theirs. -/
theorem level?_get
    (registry : LoggerRegistry)
    (other name : Text)
    (own : Option Int) :
    (registry.get other own).level? name =
      if logger name = logger other then some (own.getD (levelFor registry.debug))
      else registry.level? name := by
  cases own with
  | none =>
      exact Keyed.get?_put registry.levels (logger other) _ (logger name)
  | some level =>
      exact Keyed.get?_put registry.levels (logger other) level (logger name)

/-- The switch gives all tracked loggers its level. -/
theorem level?_setDebug
    (registry : LoggerRegistry)
    (debug : Bool)
    (name : Text) :
    (registry.setDebug debug).level? name =
      (registry.level? name).map fun level =>
        if logger name ∈ registry.tracked then levelFor debug else level := by
  have changed :=
    Keyed.get?_map
      (fun key level => if registry.tracked.contains key then levelFor debug else level)
      registry.levels (logger name)
  simp only [List.contains_eq_mem, decide_eq_true_eq] at changed
  simp only [level?, setDebug, List.contains_eq_mem, decide_eq_true_eq]
  exact changed

theorem mem_tracked_after
    (registry : LoggerRegistry)
    (call : LoggerCall)
    (name : Text) :
    logger name ∈ (registry.after call).tracked ↔
      logger name ∈ registry.tracked ∨ call.Tracks name := by
  cases call with
  | setDebug debug =>
      refine (or_iff_left ?_).symm
      rintro ⟨-, _, isGet⟩
      cases isGet
  | get other own =>
      cases own with
      | none =>
          have tracks : (LoggerCall.get other none).Tracks name ↔ logger name = logger other := by
            refine ⟨fun ⟨requests, _⟩ => (Option.some.inj requests).symm, fun same => ?_⟩
            exact ⟨congrArg some same.symm, other, rfl⟩
          rw [tracks, or_comm]
          exact List.mem_cons
      | some level =>
          refine (or_iff_left ?_).symm
          rintro ⟨-, _, isGet⟩
          cases isGet

/-- A request of another logger changes nothing about a logger. -/
theorem level?_after_get
    {registry : LoggerRegistry}
    {other name : Text}
    {own : Option Int}
    (noRequest : ¬ (LoggerCall.get other own).Requests name) :
    (registry.after (.get other own)).level? name = registry.level? name := by
  rw [after, level?_get, if_neg fun same => noRequest (congrArg some same.symm)]

theorem debug_after
    (registry : LoggerRegistry)
    (call : LoggerCall) :
    (registry.after call).debug = call.switched?.getD registry.debug := by
  cases call with
  | setDebug debug =>
      rfl
  | get other own =>
      cases own <;> rfl

/-!
## Any calls
-/

/-- The loggers after calls, of which the first finds no logger. -/
def run (calls : List LoggerCall) : LoggerRegistry :=
  calls.foldl after empty

/-- The position of the switch after calls. -/
def switch (calls : List LoggerCall) : Bool :=
  (calls.filterMap LoggerCall.switched?).getLast?.getD false

theorem run_concat
    (calls : List LoggerCall)
    (call : LoggerCall) :
    run (calls ++ [call]) = (run calls).after call :=
  List.foldl_concat after empty call calls

theorem debug_run
    (calls : List LoggerCall) :
    (run calls).debug = switch calls := by
  induction calls using List.reverseRecOn with
  | nil =>
      rfl
  | append_singleton calls call inductionHypothesis =>
      rw [run_concat, debug_after, inductionHypothesis, switch, switch, List.filterMap_append]
      cases call with
      | setDebug debug =>
          exact (congrArg (Option.getD · false) List.getLast?_concat).symm
      | get other own =>
          rw [List.filterMap_cons_none rfl, List.filterMap_nil, List.append_nil]
          rfl

/-- A logger is tracked for good once it was asked for without a level. -/
theorem mem_tracked_foldl_after
    (registry : LoggerRegistry)
    (calls : List LoggerCall)
    (name : Text) :
    logger name ∈ (calls.foldl after registry).tracked ↔
      logger name ∈ registry.tracked ∨ ∃ call ∈ calls, call.Tracks name := by
  induction calls generalizing registry with
  | nil =>
      exact (or_iff_left fun ⟨_, isMember, _⟩ => List.not_mem_nil isMember).symm
  | cons call calls inductionHypothesis =>
      rw [List.foldl_cons, inductionHypothesis, mem_tracked_after, or_assoc,
        List.exists_mem_cons_iff]

theorem mem_tracked_run_iff
    (calls : List LoggerCall)
    (name : Text) :
    logger name ∈ (run calls).tracked ↔ ∃ call ∈ calls, call.Tracks name :=
  (mem_tracked_foldl_after empty calls name).trans (or_iff_right List.not_mem_nil)

/-- Calls that do not ask for a logger change its level only if it is tracked and the switch is
among them. -/
theorem level?_foldl_after
    (registry : LoggerRegistry)
    {calls : List LoggerCall}
    {name : Text}
    (noRequest : ∀ call ∈ calls, ¬ call.Requests name) :
    (calls.foldl after registry).level? name =
      (registry.level? name).map fun level =>
        if logger name ∈ registry.tracked ∧ ∃ debug, .setDebug debug ∈ calls then
          levelFor (calls.foldl after registry).debug
        else level := by
  induction calls using List.reverseRecOn with
  | nil =>
      simp
  | append_singleton calls call inductionHypothesis =>
      have noneBefore := (List.forall_mem_append.mp noRequest).1
      have notLast := List.forall_mem_singleton.mp (List.forall_mem_append.mp noRequest).2
      rw [List.foldl_concat, debug_after]
      cases call with
      | setDebug debug =>
          have sameTracked :
              logger name ∈ (calls.foldl after registry).tracked ↔
                logger name ∈ registry.tracked := by
            rw [mem_tracked_foldl_after]
            exact or_iff_left fun ⟨_, isMember, tracks⟩ => noneBefore _ isMember tracks.1
          -- What the switch was before does not matter any more.
          rw [after, level?_setDebug, inductionHypothesis noneBefore, Option.map_map]
          congr 1
          funext level
          simp only [Function.comp_apply, sameTracked]
          by_cases isTracked : logger name ∈ registry.tracked
          · rw [if_pos isTracked, if_pos ⟨isTracked, debug, List.mem_concat_self⟩]
            rfl
          · rw [if_neg isTracked, if_neg fun both => isTracked both.1,
              if_neg fun both => isTracked both.1]
      | get other own =>
          have sameSwitches :
              (∃ debug, .setDebug debug ∈ calls ++ [.get other own]) ↔
                ∃ debug, .setDebug debug ∈ calls := by
            simp
          rw [level?_after_get notLast, inductionHypothesis noneBefore]
          simp only [sameSwitches]
          rfl

/-!
## The last request
-/

/-- The last request of a logger among calls, with the calls before and behind it. -/
structure LastRequest (calls : List LoggerCall) (name : Text) (own : Option Int)
    (before behind : List LoggerCall) : Prop where
  isSplit : ∃ other, logger other = logger name ∧ calls = before ++ .get other own :: behind
  noLater : ∀ call ∈ behind, ¬ call.Requests name

/-- A logger was asked for without a level before a request, and the switch was turned behind
it. -/
def IsReset (name : Text) (before behind : List LoggerCall) : Prop :=
  (∃ call ∈ before, call.Tracks name) ∧ ∃ debug, .setDebug debug ∈ behind

/-- The level of a logger after calls, if it was ever asked for. -/
inductive Stands (calls : List LoggerCall) (name : Text) : (level? : Option Int) → Prop where
  /-- It was never asked for. -/
  | unknown (noRequest : ∀ call ∈ calls, ¬ call.Requests name) : Stands calls name none
  /-- It was asked for without a level last. -/
  | follows {before behind : List LoggerCall}
      (isLast : LastRequest calls name none before behind) :
      Stands calls name (some (levelFor (switch calls)))
  /-- It was asked for with a level last. -/
  | fixed {level : Int} {before behind : List LoggerCall}
      (isLast : LastRequest calls name (some level) before behind)
      (notReset : ¬ IsReset name before behind) : Stands calls name (some level)
  /-- It was asked for with a level last, but follows the switch again. -/
  | reset {level : Int} {before behind : List LoggerCall}
      (isLast : LastRequest calls name (some level) before behind)
      (isReset : IsReset name before behind) : Stands calls name (some (levelFor (switch calls)))

/-- Without the switch among the calls its position stays. -/
theorem debug_foldl_after
    (registry : LoggerRegistry)
    {calls : List LoggerCall}
    (noSwitch : ¬ ∃ debug, .setDebug debug ∈ calls) :
    (calls.foldl after registry).debug = registry.debug := by
  induction calls generalizing registry with
  | nil =>
      rfl
  | cons call calls inductionHypothesis =>
      have noneLater : ¬ ∃ debug, .setDebug debug ∈ calls :=
        fun ⟨debug, isMember⟩ => noSwitch ⟨debug, .tail _ isMember⟩
      rw [List.foldl_cons, inductionHypothesis (registry.after call) noneLater, debug_after]
      cases call with
      | setDebug debug =>
          exact absurd ⟨debug, .head _⟩ noSwitch
      | get other own =>
          rfl

/-- The level of a logger is told by its last request and the calls behind it. -/
theorem level?_of_lastRequest
    {calls before behind : List LoggerCall}
    {name : Text}
    {own : Option Int}
    (isLast : LastRequest calls name own before behind) :
    ((own = none ∨ IsReset name before behind) →
        (run calls).level? name = some (levelFor (switch calls))) ∧
      ∀ level, own = some level → ¬ IsReset name before behind →
        (run calls).level? name = some level := by
  obtain ⟨⟨other, same, rfl⟩, noLater⟩ := isLast
  have isRun :
      run (before ++ .get other own :: behind) =
        behind.foldl after ((run before).after (.get other own)) :=
    List.foldl_append
  have start :
      ((run before).after (.get other own)).level? name =
        some (own.getD (levelFor (run before).debug)) := by
    rw [after, level?_get, if_pos same.symm]
  have tracked :
      logger name ∈ ((run before).after (.get other own)).tracked ↔
        (∃ call ∈ before, call.Tracks name) ∨ own = none := by
    rw [mem_tracked_after, mem_tracked_run_iff]
    refine or_congr_right ⟨fun ⟨_, _, isGet⟩ => ?_, fun isNone => ?_⟩
    · cases isGet
      rfl
    · rw [isNone]
      exact ⟨congrArg some same, other, rfl⟩
  rw [← debug_run, isRun, level?_foldl_after _ noLater, start, Option.map_some]
  constructor
  · intro followsSwitch
    by_cases isSwitched : ∃ debug, .setDebug debug ∈ behind
    · refine congrArg some (if_pos ⟨tracked.mpr ?_, isSwitched⟩)
      exact followsSwitch.elim Or.inr fun isReset => Or.inl isReset.1
    · -- The level is still that of the request, and the switch is where it was then.
      rw [if_neg fun both => isSwitched both.2, debug_foldl_after _ isSwitched, debug_after]
      rcases followsSwitch with rfl | isReset
      · rfl
      · exact absurd isReset.2 isSwitched
  · rintro level rfl notReset
    refine congrArg some (if_neg ?_)
    rintro ⟨isTracked, isSwitched⟩
    rcases tracked.mp isTracked with isEarlier | isNone
    · exact notReset ⟨isEarlier, isSwitched⟩
    · cases isNone

/-- There is a last request of a logger that was ever asked for. -/
theorem exists_lastRequest
    {calls : List LoggerCall}
    {name : Text}
    (isRequested : ∃ call ∈ calls, call.Requests name) :
    ∃ own before behind, LastRequest calls name own before behind := by
  induction calls with
  | nil =>
      obtain ⟨_, isMember, -⟩ := isRequested
      cases isMember
  | cons call calls inductionHypothesis =>
      by_cases isLater : ∃ call ∈ calls, call.Requests name
      · obtain ⟨own, before, behind, ⟨other, same, isSplit⟩, noLater⟩ :=
          inductionHypothesis isLater
        exact ⟨own, call :: before, behind,
          ⟨other, same, congrArg (List.cons call) isSplit⟩, noLater⟩
      · obtain ⟨found, isMember, requests⟩ := isRequested
        rcases List.mem_cons.mp isMember with rfl | inRest
        · cases found with
          | setDebug debug =>
              cases requests
          | get other own =>
              exact ⟨own, [], calls, ⟨other, Option.some.inj requests, rfl⟩,
                fun call isMember requests => isLater ⟨call, isMember, requests⟩⟩
        · exact absurd ⟨found, inRest, requests⟩ isLater

/-- A logger that is never asked for has no level. -/
theorem level?_of_noRequest
    {calls : List LoggerCall}
    {name : Text}
    (noRequest : ∀ call ∈ calls, ¬ call.Requests name) :
    (run calls).level? name = none := by
  rw [run, level?_foldl_after empty noRequest]
  rfl

theorem exists_stands
    (calls : List LoggerCall)
    (name : Text) :
    ∃ level?, Stands calls name level? := by
  by_cases isRequested : ∃ call ∈ calls, call.Requests name
  · obtain ⟨own, before, behind, isLast⟩ := exists_lastRequest isRequested
    cases own with
    | none =>
        exact ⟨_, .follows isLast⟩
    | some level =>
        by_cases isReset : IsReset name before behind
        · exact ⟨_, .reset isLast isReset⟩
        · exact ⟨_, .fixed isLast isReset⟩
  · exact ⟨none, .unknown fun call isMember requests => isRequested ⟨call, isMember, requests⟩⟩

theorem level?_of_stands
    {calls : List LoggerCall}
    {name : Text}
    {level? : Option Int}
    (stands : Stands calls name level?) :
    (run calls).level? name = level? := by
  cases stands with
  | unknown noRequest =>
      exact level?_of_noRequest noRequest
  | follows isLast =>
      exact (level?_of_lastRequest isLast).1 (Or.inl rfl)
  | fixed isLast notReset =>
      exact (level?_of_lastRequest isLast).2 _ rfl notReset
  | reset isLast isReset =>
      exact (level?_of_lastRequest isLast).1 (Or.inr isReset)

/-- Whatever is called in whatever order, the level of every logger is that of its last request,
and that of the switch if there was none with the request.  A level of its own is lost when the
switch is turned if the logger was asked for without one before. -/
theorem level?_run_eq_iff
    (calls : List LoggerCall)
    (name : Text)
    (level? : Option Int) :
    (run calls).level? name = level? ↔ Stands calls name level? := by
  refine ⟨?_, level?_of_stands⟩
  rintro rfl
  obtain ⟨level?, stands⟩ := exists_stands calls name
  rwa [level?_of_stands stands]

/-- A logger that gets a level of its own after it was tracked loses it to the switch. -/
theorem level?_run_reset :
    LastRequest [.get "a" none, .get "a" (some 50), .setDebug true] "a" (some 50)
        [.get "a" none] [.setDebug true] ∧
      (run [.get "a" none, .get "a" (some 50), .setDebug true]).level? "a" = some debugLevel ∧
        debugLevel ≠ 50 := by
  refine ⟨⟨⟨"a", rfl, rfl⟩, ?_⟩, rfl, by decide⟩
  rintro call isMember requests
  cases List.mem_singleton.mp isMember
  cases requests

end LoggerRegistry

end ContractBindings
