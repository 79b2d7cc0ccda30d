import Mathlib.Data.List.Forall2

namespace ContractBindings

/-!
# Steps that can fail

A run of steps succeeds if every step does.  The lemmas take a successful run
apart into its steps, and put the results of many equal steps together.
-/

/-- Two steps succeed if the first one does, and the second one on its result. -/
theorem bind_eq_ok_iff
    {first : Except ε α}
    {second : α → Except ε β}
    {result : β} :
    first >>= second = .ok result ↔ ∃ a, first = .ok a ∧ second a = .ok result := by
  cases first <;> simp [bind, Except.bind]

/-- What follows a check succeeds if the check is passed. -/
theorem check_bind_eq_ok_iff
    {check : Except ε PUnit}
    {rest : PUnit → Except ε α}
    {result : α} :
    check >>= rest = .ok result ↔ check = .ok ⟨⟩ ∧ rest ⟨⟩ = .ok result := by
  cases check <;> simp [bind, Except.bind]

/-- Two steps fail if the first one does, or the second one on its result. -/
theorem bind_eq_error_iff
    {first : Except ε α}
    {second : α → Except ε β}
    {failure : ε} :
    first >>= second = .error failure ↔
      first = .error failure ∨ ∃ a, first = .ok a ∧ second a = .error failure := by
  cases first <;> simp [bind, Except.bind]

theorem mapError_ok
    (report : ε → δ)
    (result : α) :
    (Except.ok result).mapError report = .ok result := by
  rfl

theorem mapError_error
    (report : ε → δ)
    (failure : ε) :
    (Except.error failure : Except ε α).mapError report = .error (report failure) := by
  rfl

/-- A step whose failure is reported in another way succeeds as before. -/
theorem mapError_eq_ok_iff
    {step : Except ε α}
    {report : ε → δ}
    {result : α} :
    step.mapError report = .ok result ↔ step = .ok result := by
  cases step <;> simp [mapError_ok, mapError_error]

/-- A step that only changes its result succeeds with the changed result. -/
theorem map_eq_ok_iff
    {step : Except ε α}
    {change : α → β}
    {result : β} :
    step.map change = .ok result ↔ ∃ a, step = .ok a ∧ change a = result := by
  cases step <;> simp [Except.map]

theorem map_eq_error_iff
    {step : Except ε α}
    {change : α → β}
    {failure : ε} :
    step.map change = .error failure ↔ step = .error failure := by
  cases step <;> simp [Except.map]

theorem pure_eq_ok_iff
    {a result : α} :
    (pure a : Except ε α) = .ok result ↔ a = result := by
  simp [pure, Except.pure]

/-- What follows a condition under which is refused succeeds if the condition fails. -/
theorem refuse_eq_ok_iff
    {refused : Prop}
    [Decidable refused]
    {failure : ε}
    {rest : Except ε α}
    {result : α} :
    (if refused then (Except.error failure : Except ε PUnit) >>= fun _ => rest else rest) =
        .ok result ↔
      ¬ refused ∧ rest = .ok result := by
  by_cases isRefused : refused <;> simp [isRefused, bind, Except.bind]

/-- Items are checked one after another, each of them successfully. -/
theorem forM_eq_ok_iff
    {check : α → Except ε PUnit}
    {items : List α} :
    items.forM check = .ok ⟨⟩ ↔ ∀ item ∈ items, check item = .ok ⟨⟩ := by
  induction items with
  | nil =>
      exact iff_of_true rfl nofun
  | cons item items inductionHypothesis =>
      rw [List.forM, bind_eq_ok_iff, List.forall_mem_cons, inductionHypothesis]
      exact ⟨fun ⟨_, ofFirst, ofOthers⟩ => ⟨ofFirst, ofOthers⟩,
        fun ⟨ofFirst, ofOthers⟩ => ⟨⟨⟩, ofFirst, ofOthers⟩⟩

theorem eq_ok_of_toOption
    {step : Except ε α}
    {result : α}
    (found : step.toOption = some result) :
    step = .ok result := by
  cases step with
  | error failure =>
      cases found
  | ok a =>
      cases found
      rfl

/-- Steps that all succeed give all their results. -/
theorem mapM_eq_ok
    {f : α → Except ε β}
    {g : α → β}
    {items : List α}
    (succeeds : ∀ item ∈ items, f item = .ok (g item)) :
    items.mapM f = .ok (items.map g) := by
  induction items with
  | nil =>
      rfl
  | cons item items inductionHypothesis =>
      rw [List.mapM_cons, succeeds item (by simp),
        inductionHypothesis fun other member => succeeds other (List.mem_cons_of_mem _ member)]
      rfl

/-- Equal steps give the results that each of them gives. -/
theorem mapM_eq_ok_iff
    {f : α → Except ε β}
    {items : List α}
    {results : List β} :
    items.mapM f = .ok results ↔
      List.Forall₂ (fun item result => f item = .ok result) items results := by
  induction items generalizing results with
  | nil =>
      rw [List.mapM_nil, pure_eq_ok_iff, List.forall₂_nil_left_iff, eq_comm]
  | cons item items inductionHypothesis =>
      simp only [List.mapM_cons, bind_eq_ok_iff, pure_eq_ok_iff, inductionHypothesis]
      constructor
      · rintro ⟨first, ofFirst, others, ofOthers, rfl⟩
        exact .cons ofFirst ofOthers
      · rintro (_ | ⟨ofFirst, ofOthers⟩)
        exact ⟨_, ofFirst, _, ofOthers, rfl⟩

/-- Where a step fails after steps that succeed, the run fails as it does. -/
theorem mapM_eq_error
    {f : α → Except ε β}
    {before after : List α}
    {item : α}
    {failure : ε}
    (succeed : ∀ earlier ∈ before, ∃ result, f earlier = .ok result)
    (fails : f item = .error failure) :
    (before ++ item :: after).mapM f = .error failure := by
  induction before with
  | nil =>
      rw [List.nil_append, List.mapM_cons, fails]
      rfl
  | cons first before inductionHypothesis =>
      obtain ⟨⟨result, ofFirst⟩, ofOthers⟩ := List.forall_mem_cons.mp succeed
      rw [List.cons_append, List.mapM_cons, ofFirst, inductionHypothesis ofOthers]
      rfl

theorem length_of_mapM
    {f : α → Except ε β}
    {items : List α}
    {results : List β}
    (succeeds : items.mapM f = .ok results) :
    results.length = items.length :=
  (mapM_eq_ok_iff.mp succeeds).length_eq.symm

/-- If all steps succeed, each of them does. -/
theorem exists_of_mapM
    {f : α → Except ε β}
    {items : List α}
    {results : List β}
    (succeeds : items.mapM f = .ok results)
    {item : α}
    (member : item ∈ items) :
    ∃ result, f item = .ok result := by
  induction items generalizing results with
  | nil =>
      cases member
  | cons first items inductionHypothesis =>
      simp only [List.mapM_cons, bind_eq_ok_iff, pure_eq_ok_iff] at succeeds
      obtain ⟨result, ofFirst, others, ofOthers, rfl⟩ := succeeds
      rcases List.mem_cons.mp member with isFirst | isOther
      · exact ⟨result, isFirst ▸ ofFirst⟩
      · exact inductionHypothesis ofOthers isOther

/-- If all steps succeed, each item has a result of its own. -/
theorem exists_pairs_of_mapM
    {f : α → Except ε β}
    {items : List α}
    {results : List β}
    (succeeds : items.mapM f = .ok results) :
    ∃ pairs : List (α × β),
      items = pairs.map (·.1) ∧ results = pairs.map (·.2) ∧
        ∀ pair ∈ pairs, f pair.1 = .ok pair.2 := by
  induction items generalizing results with
  | nil =>
      cases succeeds
      exact ⟨[], rfl, rfl, by simp⟩
  | cons item items inductionHypothesis =>
      simp only [List.mapM_cons, bind_eq_ok_iff, pure_eq_ok_iff] at succeeds
      obtain ⟨first, ofFirst, others, ofOthers, rfl⟩ := succeeds
      obtain ⟨pairs, rfl, rfl, each⟩ := inductionHypothesis ofOthers
      exact ⟨(item, first) :: pairs, rfl, rfl, List.forall_mem_cons.mpr ⟨ofFirst, each⟩⟩

/-- If all steps succeed, each result is that of one of them. -/
theorem forall_mem_of_mapM
    {f : α → Except ε β}
    {motive : β → Prop}
    {items : List α}
    {results : List β}
    (succeeds : items.mapM f = .ok results)
    (each : ∀ item ∈ items, ∀ result, f item = .ok result → motive result) :
    ∀ result ∈ results, motive result := by
  induction items generalizing results with
  | nil =>
      cases succeeds
      simp
  | cons item items inductionHypothesis =>
      simp only [List.mapM_cons, bind_eq_ok_iff, pure_eq_ok_iff] at succeeds
      obtain ⟨first, ofFirst, others, ofOthers, rfl⟩ := succeeds
      rw [List.forall_mem_cons] at each ⊢
      exact ⟨each.1 first ofFirst, inductionHypothesis ofOthers each.2⟩

/-- What comes of items that are related one by one is related to one of them. -/
theorem exists_of_forall₂
    {related : α → β → Prop}
    {items : List α}
    {results : List β}
    (all : List.Forall₂ related items results)
    {result : β}
    (member : result ∈ results) :
    ∃ item ∈ items, related item result := by
  induction all with
  | nil =>
      cases member
  | cons first _ inductionHypothesis =>
      rcases List.mem_cons.mp member with rfl | isOther
      · exact ⟨_, List.mem_cons_self, first⟩
      · obtain ⟨item, isItem, isRelated⟩ := inductionHypothesis isOther
        exact ⟨item, List.mem_cons_of_mem _ isItem, isRelated⟩

/-- Items that have a result or a fault all have results, or one of them is the first with
a fault. -/
theorem forall₂_or_first
    {hasResult : α → β → Prop}
    {hasFault : α → Prop}
    {items : List α}
    (each : ∀ item ∈ items, (∃ result, hasResult item result) ∨ hasFault item) :
    (∃ results, List.Forall₂ hasResult items results) ∨
      ∃ before item after,
        items = before ++ item :: after ∧
          (∀ earlier ∈ before, ∃ result, hasResult earlier result) ∧ hasFault item := by
  induction items with
  | nil =>
      exact Or.inl ⟨[], .nil⟩
  | cons first items inductionHypothesis =>
      obtain ⟨ofFirst, ofOthers⟩ := List.forall_mem_cons.mp each
      rcases ofFirst with ⟨result, isResult⟩ | isFault
      · rcases inductionHypothesis ofOthers with
          ⟨results, areResults⟩ | ⟨before, item, after, rfl, areResults, isFault⟩
        · exact Or.inl ⟨result :: results, .cons isResult areResults⟩
        · exact Or.inr ⟨first :: before, item, after, rfl,
            List.forall_mem_cons.mpr ⟨⟨result, isResult⟩, areResults⟩, isFault⟩
      · exact Or.inr ⟨[], first, items, rfl, nofun, isFault⟩

/-- Items that all have a result have all their results. -/
theorem mapM_isSome
    {f : α → Option β}
    {items : List α}
    (hasResult : ∀ item ∈ items, (f item).isSome = true) :
    (items.mapM f).isSome = true := by
  induction items with
  | nil =>
      rfl
  | cons item items inductionHypothesis =>
      obtain ⟨first, ofFirst⟩ := Option.isSome_iff_exists.mp (hasResult item (by simp))
      obtain ⟨rest, ofRest⟩ := Option.isSome_iff_exists.mp
        (inductionHypothesis fun other member => hasResult other (List.mem_cons_of_mem _ member))
      rw [List.mapM_cons, ofFirst, ofRest]
      rfl

end ContractBindings
