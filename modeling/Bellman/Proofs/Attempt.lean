import Bellman.Fault
import Mathlib.Data.List.Forall2

/-!
# Operations that may fail

An operation with several steps gives a result exactly when every step gives one, and otherwise the
fault of the first step that gives none. The lemmas below take a result apart into the results of
its steps, and a fault to the step that it comes from, so that nothing else has to look into the
sequence of steps itself.
-/

namespace Bellman

variable {α β γ : Type}

@[simp] theorem ok_bind (a : α) (f : α → Except Fault β) : .ok a >>= f = f a := rfl

theorem bind_eq_ok {x : Except Fault α} {f : α → Except Fault β} {b : β} :
    x >>= f = .ok b ↔ ∃ a, x = .ok a ∧ f a = .ok b := by
  cases x with
  | ok a =>
      constructor
      · intro h
        exact ⟨a, rfl, h⟩
      · rintro ⟨_, ⟨⟩, h⟩
        exact h
  | error e =>
      constructor
      · intro h
        cases h
      · rintro ⟨_, ⟨⟩, _⟩

theorem bind_eq_error {x : Except Fault α} {f : α → Except Fault β} {e : Fault} :
    x >>= f = .error e ↔ x = .error e ∨ ∃ a, x = .ok a ∧ f a = .error e := by
  cases x with
  | ok a =>
      constructor
      · intro h
        exact .inr ⟨a, rfl, h⟩
      · rintro (⟨⟨⟩⟩ | ⟨_, ⟨⟩, h⟩)
        exact h
  | error e' =>
      constructor
      · intro h
        obtain rfl := Except.error.inj h
        exact .inl rfl
      · rintro (⟨⟨⟩⟩ | ⟨_, ⟨⟩, _⟩)
        rfl

theorem map_eq_ok {x : Except Fault α} {f : α → β} {b : β} :
    x.map f = .ok b ↔ ∃ a, x = .ok a ∧ f a = b := by
  cases x with
  | ok a => simp only [Except.map, Except.ok.injEq, exists_eq_left']
  | error e => simp only [Except.map, reduceCtorEq, false_and, exists_false]

/-- What a result is seen to be, it is. -/
theorem exists_of_any {x : Except Fault α} {p : α → Bool} (h : x.toOption.any p = true) :
    ∃ a, x = .ok a ∧ p a = true := by
  cases x with
  | ok a => exact ⟨a, rfl, h⟩
  | error e => cases h

@[simp] theorem pure_ne_error {a : α} {e : Fault} : (pure a : Except Fault α) ≠ .error e := by
  intro h
  cases h

@[simp] theorem pure_eq_ok {a b : α} : (pure a : Except Fault α) = .ok b ↔ a = b :=
  Except.ok.injEq a b ▸ Iff.rfl

/-- A traversal gives a list exactly when every element gives the one in its place. -/
theorem mapM_eq_ok {f : α → Except Fault β} {as : List α} {bs : List β} :
    as.mapM f = .ok bs ↔ List.Forall₂ (fun a b => f a = .ok b) as bs := by
  induction as generalizing bs with
  | nil =>
      rw [List.mapM_nil, pure_eq_ok, List.forall₂_nil_left_iff]
      exact eq_comm
  | cons a as ih =>
      simp only [List.mapM_cons, bind_eq_ok, pure_eq_ok, List.forall₂_cons_left_iff]
      constructor
      · rintro ⟨b, hb, bs', hbs, rfl⟩
        exact ⟨b, bs', hb, ih.mp hbs, rfl⟩
      · rintro ⟨b, bs', hb, hbs, rfl⟩
        exact ⟨b, hb, bs', ih.mpr hbs, rfl⟩

/-- A traversal that fails does so with the fault of one of the elements. -/
theorem exists_of_mapM_eq_error {f : α → Except Fault β} {as : List α} {e : Fault}
    (h : as.mapM f = .error e) : ∃ a ∈ as, f a = .error e := by
  induction as with
  | nil => cases h
  | cons a as ih =>
      simp only [List.mapM_cons, bind_eq_error, pure_ne_error, and_false, exists_false,
        or_false] at h
      rcases h with hfirst | ⟨_, -, hrest⟩
      · exact ⟨a, List.mem_cons_self, hfirst⟩
      · obtain ⟨a', ha', he⟩ := ih hrest
        exact ⟨a', List.mem_cons_of_mem _ ha', he⟩

theorem length_of_mapM {f : α → Except Fault β} {as : List α} {bs : List β}
    (h : as.mapM f = .ok bs) : bs.length = as.length :=
  (mapM_eq_ok.mp h).length_eq.symm

/-- Everything that a traversal gives comes from one of the elements. -/
theorem exists_of_mem_forall₂ {R : α → β → Prop} {as : List α} {bs : List β}
    (h : List.Forall₂ R as bs) {b : β} (hb : b ∈ bs) : ∃ a ∈ as, R a b := by
  induction h with
  | nil => cases hb
  | cons hab _ ih =>
      rcases List.mem_cons.mp hb with rfl | hb
      · exact ⟨_, List.mem_cons_self, hab⟩
      · obtain ⟨a, ha, hR⟩ := ih hb
        exact ⟨a, List.mem_cons_of_mem _ ha, hR⟩

theorem getElem?_of_forall₂ {R : α → β → Prop} {as : List α} {bs : List β}
    (h : List.Forall₂ R as bs) {i : Nat} {a : α} (ha : as[i]? = some a) :
    ∃ b, bs[i]? = some b ∧ R a b := by
  induction h generalizing i with
  | nil => cases ha
  | cons hab _ ih =>
      cases i with
      | zero => exact ⟨_, rfl, Option.some.inj ha ▸ hab⟩
      | succ i => exact ih ha

theorem exists_forall₂_of_forall_mem {R : α → β → Prop} {as : List α}
    (h : ∀ a ∈ as, ∃ b, R a b) : ∃ bs, List.Forall₂ R as bs := by
  induction as with
  | nil => exact ⟨[], .nil⟩
  | cons a as ih =>
      obtain ⟨b, hb⟩ := h a List.mem_cons_self
      obtain ⟨bs, hbs⟩ := ih fun a ha => h a (List.mem_cons_of_mem _ ha)
      exact ⟨b :: bs, .cons hb hbs⟩

theorem exists_mapM_of_forall_mem {f : α → Except Fault β} {as : List α}
    (h : ∀ a ∈ as, ∃ b, f a = .ok b) : ∃ bs, as.mapM f = .ok bs := by
  obtain ⟨bs, hbs⟩ := exists_forall₂_of_forall_mem h
  exact ⟨bs, mapM_eq_ok.mpr hbs⟩

/-- If one operation has a related result wherever another one has a result, the same goes for
traversals with them. -/
theorem mapM_of_forall_mem {f : α → Except Fault β} {g : α → Except Fault γ} {R : β → γ → Prop}
    {as : List α} (h : ∀ a ∈ as, ∀ b, f a = .ok b → ∃ c, g a = .ok c ∧ R b c) {bs : List β}
    (hbs : as.mapM f = .ok bs) : ∃ cs, as.mapM g = .ok cs ∧ List.Forall₂ R bs cs := by
  simp only [mapM_eq_ok] at hbs ⊢
  induction hbs with
  | nil => exact ⟨[], .nil, .nil⟩
  | cons hb _ ih =>
      obtain ⟨c, hc, hR⟩ := h _ List.mem_cons_self _ hb
      obtain ⟨cs, hcs, hrest⟩ := ih fun a ha => h a (List.mem_cons_of_mem _ ha)
      exact ⟨c :: cs, .cons hc hcs, .cons hR hrest⟩

end Bellman
