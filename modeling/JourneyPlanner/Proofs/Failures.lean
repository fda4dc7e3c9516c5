import Mathlib.Data.List.Forall2
import JourneyPlanner.Arithmetic.Integers

/-!
# Computations that may fail

What a chain of steps that may fail gives, and what two such chains have in common when one of them
breaks off where the other goes on (`SameUnless`). Computing in words is the same as computing
without bound unless it overflows (`Integers.fit_same`), and so is all that is made of it.
-/

namespace JourneyPlanner

variable {ε α β : Type} {x y : Except ε α} {f g : α → Except ε β} {e : ε}

/-! ## One computation -/

theorem eq_ok_of_toOption {a : α} (h : x.toOption = some a) : x = .ok a := by
  cases x with
  | error e => cases h
  | ok b => exact congrArg Except.ok (Option.some.inj h)

theorem bind_eq_ok {b : β} : (x >>= f) = .ok b ↔ ∃ a, x = .ok a ∧ f a = .ok b := by
  cases x with
  | error e => exact ⟨fun h => (nomatch h), fun ⟨_, h, _⟩ => (nomatch h)⟩
  | ok a => exact ⟨fun h => ⟨a, rfl, h⟩, fun ⟨_, h, hf⟩ => Except.ok.inj h ▸ hf⟩

theorem bind_eq_error :
    (x >>= f) = .error e ↔ x = .error e ∨ ∃ a, x = .ok a ∧ f a = .error e := by
  cases x with
  | error e' => exact ⟨fun h => .inl (congrArg _ (Except.error.inj h)),
      fun h => h.elim (fun h => congrArg _ (Except.error.inj h)) fun ⟨_, h, _⟩ => (nomatch h)⟩
  | ok a => exact ⟨fun h => .inr ⟨a, rfl, h⟩,
      fun h => h.elim (fun h => (nomatch h)) fun ⟨_, h, hf⟩ => Except.ok.inj h ▸ hf⟩

theorem map_eq_ok {f : α → β} {b : β} : x.map f = .ok b ↔ ∃ a, x = .ok a ∧ f a = b := by
  cases x with
  | error e => exact ⟨fun h => (nomatch h), fun ⟨_, h, _⟩ => (nomatch h)⟩
  | ok a => exact ⟨fun h => ⟨a, rfl, Except.ok.inj h⟩,
      fun ⟨_, h, hf⟩ => congrArg _ (Except.ok.inj h ▸ hf)⟩

theorem refuse_eq_ok {p : Prop} [Decidable p] {k : PUnit → Except ε β} {b : β} :
    (if p then throw e >>= k else k ⟨⟩) = .ok b ↔ ¬p ∧ k ⟨⟩ = .ok b := by
  by_cases hp : p
  · rw [if_pos hp]
    exact ⟨fun h => (nomatch h), fun h => absurd hp h.1⟩
  · rw [if_neg hp]
    exact ⟨fun h => ⟨hp, h⟩, fun h => h.2⟩

theorem refuse_eq_error {p : Prop} [Decidable p] {e' : ε} {k : PUnit → Except ε β} :
    (if p then throw e' >>= k else k ⟨⟩) = .error e ↔ p ∧ e' = e ∨ ¬p ∧ k ⟨⟩ = .error e := by
  by_cases hp : p
  · rw [if_pos hp]
    exact ⟨fun h => .inl ⟨hp, Except.error.inj h⟩,
      fun h => h.elim (fun h => congrArg _ h.2) fun h => absurd hp h.1⟩
  · rw [if_neg hp]
    exact ⟨fun h => .inr ⟨hp, h⟩, fun h => h.elim (fun h => absurd h.1 hp) fun h => h.2⟩

theorem error_of_refuse {p : Prop} [Decidable p] {e' : ε} {k : PUnit → Except ε β}
    (h : (if p then throw e' >>= k else k ⟨⟩) = .error e) (hne : e' ≠ e) : k ⟨⟩ = .error e :=
  (refuse_eq_error.mp h).elim (fun h => absurd h.2 hne) fun h => h.2

theorem optionMapM_eq_ok {a? : Option α} {b? : Option β} : a?.mapM f = .ok b? ↔
    (a? = none ∧ b? = none) ∨ ∃ a b, a? = some a ∧ f a = .ok b ∧ b? = some b := by
  cases a? with
  | none =>
    rw [Option.mapM_none]
    exact ⟨fun h => .inl ⟨rfl, (Except.ok.inj h).symm⟩,
      fun h => h.elim (fun h => congrArg _ h.2.symm) fun ⟨_, _, h, _⟩ => (nomatch h)⟩
  | some a =>
    have hmap : (some a).mapM f = (f a).map some := rfl
    rw [hmap, map_eq_ok]
    constructor
    · rintro ⟨b, hb, rfl⟩
      exact .inr ⟨a, b, rfl, hb, rfl⟩
    · rintro (⟨h, -⟩ | ⟨_, b, h, hb, rfl⟩)
      · cases h
      · exact ⟨b, Option.some.inj h ▸ hb, rfl⟩

theorem exists_of_mapM_eq_ok : ∀ {xs : List α} {ys : List β},
    xs.mapM f = .ok ys → ∀ y ∈ ys, ∃ x ∈ xs, f x = .ok y
  | [], ys, h, y, hy => by
    rw [List.mapM_nil] at h
    cases h
    cases hy
  | x :: xs, ys, h, y, hy => by
    rw [List.mapM_cons] at h
    obtain ⟨y₀, hy₀, h⟩ := bind_eq_ok.mp h
    obtain ⟨ys', hys', h⟩ := bind_eq_ok.mp h
    cases h
    rcases List.mem_cons.mp hy with rfl | hy
    · exact ⟨x, List.mem_cons_self, hy₀⟩
    · obtain ⟨x', hx', hf⟩ := exists_of_mapM_eq_ok hys' y hy
      exact ⟨x', List.mem_cons_of_mem x hx', hf⟩

theorem mapM_eq_map {h : α → β} : ∀ {xs : List α}, (∀ x ∈ xs, f x = .ok (h x)) →
    xs.mapM f = .ok (xs.map h)
  | [], _ => rfl
  | x :: xs, hf => by
    rw [List.mapM_cons, hf x List.mem_cons_self,
      mapM_eq_map fun y hy => hf y (List.mem_cons_of_mem x hy)]
    rfl

theorem mapM_eq_error {x : α} (hx : f x = .error e) (hf : ∀ y e', f y = .error e' → e' = e) :
    ∀ {xs : List α}, x ∈ xs → xs.mapM f = .error e
  | y :: xs, h => by
    rw [List.mapM_cons]
    cases hy : f y with
    | error e' => exact congrArg _ (hf y e' hy)
    | ok b =>
      rcases List.mem_cons.mp h with rfl | h
      · cases hx.symm.trans hy
      · rw [mapM_eq_error hx hf h]
        rfl

/-! ## Lists gone through without an answer -/

theorem mapM_eq_some_iff {α β : Type} {f : α → Option β} {as : List α} {bs : List β} :
    as.mapM f = some bs ↔ List.Forall₂ (fun a b => f a = some b) as bs := by
  induction as generalizing bs with
  | nil =>
    rw [List.mapM_nil, List.forall₂_nil_left_iff]
    exact ⟨fun h => (Option.some.inj h).symm, fun h => h ▸ rfl⟩
  | cons a as ih =>
    rw [List.mapM_cons, List.forall₂_cons_left_iff]
    simp only [bind, pure, Option.bind_eq_some_iff, Option.some.injEq]
    constructor
    · rintro ⟨b, hb, bs, hbs, rfl⟩
      exact ⟨b, bs, hb, ih.mp hbs, rfl⟩
    · rintro ⟨b, bs, hb, hbs, rfl⟩
      exact ⟨b, hb, bs, ih.mpr hbs, rfl⟩

theorem mapM_map_eq_some {α β γ : Type} [Inhabited β] {g : α → Option β} {h : α → β → γ}
    {as : List α} {cs : List γ} : as.mapM (fun a => (g a).map (h a)) = some cs ↔
      ∃ v : α → β, (∀ a ∈ as, g a = some (v a)) ∧ cs = as.map fun a => h a (v a) := by
  rw [mapM_eq_some_iff]
  constructor
  · intro hall
    refine ⟨fun a => (g a).getD default, ?_⟩
    beta_reduce
    induction hall with
    | nil => exact ⟨fun _ ha => absurd ha List.not_mem_nil, rfl⟩
    | cons hc _ ih =>
      obtain ⟨b, hb, rfl⟩ := Option.map_eq_some_iff.mp hc
      refine ⟨List.forall_mem_cons.mpr ⟨by rw [hb, Option.getD_some], ih.1⟩, ?_⟩
      rw [List.map_cons, ← ih.2, hb, Option.getD_some]
  · rintro ⟨v, hv, rfl⟩
    rw [List.forall₂_map_right_iff, List.forall₂_same]
    exact fun a ha => by rw [hv a ha, Option.map_some]

/-! ## Two computations -/

/-- The first computation breaks off with an error, or is the same as the second. -/
def SameUnless (e : ε) (x y : Except ε α) : Prop := x = .error e ∨ x = y

namespace SameUnless

theorem refl (e : ε) (x : Except ε α) : SameUnless e x x := .inr rfl

theorem eq_ok {a : α} (h : SameUnless e x y) (hx : x = .ok a) : y = .ok a := by
  rcases h with h | h
  · cases hx.symm.trans h
  · exact h ▸ hx

theorem bind (hx : SameUnless e x y) (hf : ∀ a, SameUnless e (f a) (g a)) :
    SameUnless e (x >>= f) (y >>= g) := by
  rcases hx with rfl | rfl
  · exact .inl rfl
  · cases x with
    | error e' => exact .inr rfl
    | ok a => exact hf a

theorem refuse {p : Prop} [Decidable p] {e' : ε} {k k' : PUnit → Except ε α}
    (h : SameUnless e (k ⟨⟩) (k' ⟨⟩)) :
    SameUnless e (if p then throw e' >>= k else k ⟨⟩) (if p then throw e' >>= k' else k' ⟨⟩) := by
  by_cases hp : p
  · rw [if_pos hp, if_pos hp]
    exact .inr rfl
  · rw [if_neg hp, if_neg hp]
    exact h

theorem mapM (hf : ∀ a, SameUnless e (f a) (g a)) : ∀ xs : List α,
    SameUnless e (xs.mapM f) (xs.mapM g)
  | [] => .inr rfl
  | x :: xs => by
    rw [List.mapM_cons, List.mapM_cons]
    exact (hf x).bind fun _ => (mapM hf xs).bind fun _ => refl e _

theorem optionMapM (hf : ∀ a, SameUnless e (f a) (g a)) (a? : Option α) :
    SameUnless e (a?.mapM f) (a?.mapM g) := by
  cases a? with
  | none => exact .inr rfl
  | some a => exact (hf a).bind fun _ => refl e _

end SameUnless

theorem Integers.fit_same (k : Integers) (bits : Nat) (n : Int) :
    SameUnless .overflow (k.fit bits n) (unbounded.fit bits n) := by
  by_cases h : k.Holds bits n
  · exact .inr ((fit_of_holds h).trans fit_unbounded.symm)
  · exact .inl (fit_eq_error h)

end JourneyPlanner
