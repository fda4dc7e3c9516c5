import JourneyPlanner.Proofs.Search.Chronicle

/-!
# Frontiers as Pareto fronts

A frontier forgets the labels that it drops, yet it refuses a state exactly when any state that was
offered before is at least as good: what was dropped for a better label is not needed, since
whatever it dominates is dominated by that one too (`Frontier.Records`). So the labels kept for a
place are those that none of the labels offered there betters, each of them once, in whatever order
the states are offered (`Frontier.pareto_front`).
-/

namespace JourneyPlanner

variable {W : Type} [Weight W] {arriveBy : Bool}

/-! ## Labels that are the same -/

theorem Sooner.antisymm {a b : Int} (h : Sooner arriveBy a b) (h' : Sooner arriveBy b a) :
    a = b := by
  unfold Sooner at *; split_ifs at * <;> omega

theorem Option.Rel.sooner_antisymm {a b : Option Int} (h : Option.Rel (Sooner arriveBy) a b)
    (h' : Option.Rel (Sooner arriveBy) b a) : a = b := by
  cases h with
  | none => rfl
  | some hab =>
    cases h' with
    | some hba => rw [hab.antisymm hba]

namespace Label

variable {a b d : Label W}

/-- Whether two labels are the same, with weights compared as numbers: there are two doubles for
zero. -/
structure Same (a b : Label W) : Prop where
  place_eq : a.place = b.place
  weight_le : Weight.atMost a.weight b.weight = true
  le_weight : Weight.atMost b.weight a.weight = true
  time_eq : a.time = b.time
  boardings_eq : a.boardings = b.boardings
  alighted_eq : a.alighted = b.alighted

theorem same_iff (arriveBy : Bool) : a.Same b ↔
    a.dominates arriveBy b = true ∧ b.dominates arriveBy a = true := by
  rw [dominates_iff, dominates_iff]
  constructor
  · rintro ⟨hplace, hle, hge, htime, hboardings, halighted⟩
    refine ⟨⟨hplace, hle, ?_, hboardings.le, ?_⟩, hplace.symm, hge, ?_, hboardings.ge, ?_⟩
    · exact htime ▸ .refl _ _
    · exact halighted ▸ Option.Rel.sooner_refl _
    · exact htime ▸ .refl _ _
    · exact halighted ▸ Option.Rel.sooner_refl _
  · rintro ⟨⟨hplace, hle, htime, hboardings, halighted⟩, -, hge, htime', hboardings', halighted'⟩
    exact ⟨hplace, hle, hge, htime.antisymm htime', hboardings.antisymm hboardings',
      Option.Rel.sooner_antisymm halighted halighted'⟩

theorem Same.symm (h : a.Same b) : b.Same a :=
  ⟨h.place_eq.symm, h.le_weight, h.weight_le, h.time_eq.symm, h.boardings_eq.symm,
    h.alighted_eq.symm⟩

theorem Same.self [Weight.Preordered W] (h : Weight.isNaN a.weight = false) : a.Same a :=
  ⟨rfl, Weight.Preordered.atMost_self h, Weight.Preordered.atMost_self h, rfl, rfl, rfl⟩

theorem Same.eq {a b : Label Exact} (h : a.Same b) : a = b := by
  obtain ⟨hplace, hle, hge, htime, hboardings, halighted⟩ := h
  have hweight := Exact.eq_of_atMost hle hge
  cases a
  cases b
  simp_all

end Label

/-! ## Offers -/

namespace Frontier

variable {f f' : Frontier W} {offers offers' : List (State W)} {s a : State W} {x y : Label W}
  {place : Place}

/-- The frontier after a state is offered to it, admitted or not. -/
def offer (f : Frontier W) (s : State W) : Frontier W := (f.admit? s).getD f

/-- The frontier after states are offered one after another, none having been there before. -/
def offerAll (offers : List (State W)) : Frontier W := offers.foldl offer empty

/-- The labels that are kept for a place. -/
def keptAt (f : Frontier W) (place : Place) : List (Label W) :=
  (f.labelsAt place.vertex).filter fun x => decide (x.place = place)

/-- The labels of the states offered at a place that none of these betters: what is at least as
good as one of them is the same. -/
def paretoFront (arriveBy : Bool) (offers : List (State W)) (place : Place) : Set (Label W) :=
  {x | (∃ s ∈ offers, s.place = place ∧ s.label = x) ∧
    ∀ a ∈ offers, a.place = place → a.label.dominates arriveBy x = true → a.label.Same x}

/-- Whether neither of two labels is at least as good as the other. -/
def Apart (arriveBy : Bool) (x y : Label W) : Prop :=
  x.dominates arriveBy y = false ∧ y.dominates arriveBy x = false

/-- What a frontier holds of the states that were offered to it. -/
structure Records (f : Frontier W) (arriveBy : Bool) (offers : List (State W)) : Prop where
  offered : ∀ v, ∀ x ∈ f.labelsAt v, ∃ s ∈ offers, s.vertex = v ∧ s.label = x
  shows : ∀ s ∈ offers, f.Shows arriveBy s
  apart : ∀ v, (f.labelsAt v).Pairwise (Apart arriveBy)

theorem offerAll_concat (offers : List (State W)) (s : State W) :
    offerAll (offers ++ [s]) = (offerAll offers).offer s := by
  unfold offerAll
  rw [List.foldl_append, List.foldl_cons, List.foldl_nil]

theorem records_empty : (empty : Frontier W).Records arriveBy [] where
  offered v x hx := by
    rw [labelsAt_empty] at hx
    cases hx
  shows s hs := nomatch hs
  apart v := by
    rw [labelsAt_empty]
    exact List.Pairwise.nil

theorem labelsAt_of_admit? (h : f.admit? s = some f') (v : VertexId) : f'.labelsAt v =
    if s.vertex = v then
      (f.labelsAt s.vertex).filter (fun x => !s.label.dominates s.arriveBy x) ++ [s.label]
    else f.labelsAt v := by
  unfold admit? at h
  simp only at h
  split_ifs at h
  cases h
  rw [labelsAt_insert]

theorem apart_of_admit? (h : f.admit? s = some f')
    (hf : ∀ v, (f.labelsAt v).Pairwise (Apart s.arriveBy)) (v : VertexId) :
    (f'.labelsAt v).Pairwise (Apart s.arriveBy) := by
  rw [labelsAt_of_admit? h]
  split_ifs
  · refine List.pairwise_append.mpr
      ⟨(hf _).filter _, List.pairwise_singleton _ _, fun x hx y hy => ?_⟩
    obtain rfl := List.mem_singleton.mp hy
    obtain ⟨hx, hkept⟩ := List.mem_filter.mp hx
    exact ⟨(admit?_spec h).1 x hx, by simpa using hkept⟩
  · exact hf v

theorem Records.offer [Weight.Ordered W] (h : f.Records s.arriveBy offers) :
    (f.offer s).Records s.arriveBy (offers ++ [s]) := by
  unfold Frontier.offer
  cases hf : f.admit? s with
  | none =>
    obtain ⟨x, hx, hdominates⟩ := exists_of_admit?_eq_none hf
    refine ⟨fun v y hy => ?_, fun a ha => ?_, h.apart⟩
    · obtain ⟨a, ha, hy⟩ := h.offered v y hy
      exact ⟨a, List.mem_append_left _ ha, hy⟩
    · rcases List.mem_append.mp ha with ha | ha
      · exact h.shows a ha
      · obtain rfl := List.mem_singleton.mp ha
        exact ⟨x, hx, .inr hdominates⟩
  | some f' =>
    refine ⟨fun v y hy => ?_, fun a ha => ?_, apart_of_admit? hf h.apart⟩
    · rcases ((admit?_spec hf).2 v y).mp hy with ⟨rfl, rfl⟩ | ⟨hy, -⟩
      · exact ⟨s, List.mem_append_right _ (List.mem_singleton_self s), rfl, rfl⟩
      · obtain ⟨a, ha, hy⟩ := h.offered v y hy
        exact ⟨a, List.mem_append_left _ ha, hy⟩
    · rcases List.mem_append.mp ha with ha | ha
      · have hshown := h.shows a ha
        exact hshown.admit hf
      · obtain rfl := List.mem_singleton.mp ha
        exact shows_admitted hf

theorem records_offerAll [Weight.Ordered W] (hdir : ∀ s ∈ offers, s.arriveBy = arriveBy) :
    (offerAll offers).Records arriveBy offers := by
  induction offers using List.reverseRecOn with
  | nil => exact records_empty
  | append_singleton offers s ih =>
    obtain ⟨hdir, hs⟩ := List.forall_mem_append.mp hdir
    obtain rfl := List.forall_mem_singleton.mp hs
    rw [offerAll_concat]
    exact (ih hdir).offer

/-- A state is admitted exactly when no state that was offered before is at least as good. -/
theorem Records.isSome_admit?_iff [Weight.Ordered W] (h : f.Records s.arriveBy offers) :
    (f.admit? s).isSome = true ↔ ∀ a ∈ offers, a.label.dominates s.arriveBy s.label = false := by
  constructor
  · intro hsome a ha
    obtain ⟨f', hf⟩ := Option.isSome_iff_exists.mp hsome
    exact (h.shows a ha).not_dominates hf
  · intro hnone
    rw [Option.isSome_iff_ne_none]
    intro hf
    obtain ⟨x, hx, hdominates⟩ := exists_of_admit?_eq_none hf
    obtain ⟨a, ha, -, rfl⟩ := h.offered _ x hx
    rw [hnone a ha] at hdominates
    cases hdominates

/-! ## The front -/

omit [Weight W] in
theorem mem_keptAt : x ∈ f.keptAt place ↔ x ∈ f.labelsAt place.vertex ∧ x.place = place := by
  unfold keptAt
  rw [List.mem_filter, decide_eq_true_eq]

theorem Records.eq_of_dominates (h : f.Records arriveBy offers) {v : VertexId}
    (hx : x ∈ f.labelsAt v) (hy : y ∈ f.labelsAt v) (hd : x.dominates arriveBy y = true) :
    x = y := by
  by_contra hne
  have hsymm : Std.Symm (Apart arriveBy : Label W → Label W → Prop) := ⟨fun _ _ h => h.symm⟩
  have hapart := (h.apart v).forall hx hy hne
  rw [hapart.1] at hd
  cases hd

/-- No label offered at a place betters one that is kept for it. -/
theorem Records.mem_paretoFront [Weight.Preordered W] (h : f.Records arriveBy offers)
    (hnum : ∀ s ∈ offers, Weight.isNaN s.weight = false) (hx : x ∈ f.keptAt place) :
    x ∈ paretoFront arriveBy offers place := by
  obtain ⟨hx, hplace⟩ := mem_keptAt.mp hx
  obtain ⟨s, hs, -, rfl⟩ := h.offered _ x hx
  refine ⟨⟨s, hs, hplace, rfl⟩, fun a ha hat hdominates => ?_⟩
  obtain ⟨l, hl, hshows⟩ := h.shows a ha
  rw [show a.vertex = place.vertex from congrArg Place.vertex hat] at hl
  -- the label that stands for `a` is at least as good as `s`, and so it is that of `s`
  rcases hshows with rfl | hl'
  · rw [h.eq_of_dominates hl hx hdominates]
    exact .self (hnum s hs)
  · obtain rfl := h.eq_of_dominates hl hx (Label.dominates_trans hl' hdominates)
    exact (Label.same_iff arriveBy).mpr ⟨hdominates, hl'⟩

/-- Every label that none betters is kept. -/
theorem Records.exists_mem_keptAt [Weight.Preordered W] (h : f.Records arriveBy offers)
    (hnum : ∀ s ∈ offers, Weight.isNaN s.weight = false)
    (hx : x ∈ paretoFront arriveBy offers place) : ∃ y ∈ f.keptAt place, y.Same x := by
  obtain ⟨⟨s, hs, rfl, rfl⟩, hbest⟩ := hx
  obtain ⟨l, hl, hshows⟩ := h.shows s hs
  rcases hshows with rfl | hl'
  · exact ⟨_, mem_keptAt.mpr ⟨hl, rfl⟩, .self (hnum s hs)⟩
  · have hplace : l.place = s.place := Label.place_eq_of_dominates hl'
    obtain ⟨a, ha, -, rfl⟩ := h.offered _ l hl
    exact ⟨_, mem_keptAt.mpr ⟨hl, hplace⟩, hbest a ha hplace hl'⟩

theorem Records.pairwise_keptAt (h : f.Records arriveBy offers) (place : Place) :
    (f.keptAt place).Pairwise fun x y => ¬ x.Same y := by
  refine ((h.apart place.vertex).filter _).imp fun hapart hsame => ?_
  have hd := ((Label.same_iff arriveBy).mp hsame).1
  rw [hapart.1] at hd
  cases hd

theorem paretoFront_perm (h : offers.Perm offers') (arriveBy : Bool) (place : Place) :
    paretoFront arriveBy offers place = paretoFront arriveBy offers' place := by
  unfold paretoFront
  simp only [h.mem_iff]

/-- What is kept after the states are offered in one order is kept in any other. -/
theorem exists_mem_keptAt_of_perm [Weight.Preordered W]
    (hdir : ∀ s ∈ offers, s.arriveBy = arriveBy)
    (hnum : ∀ s ∈ offers, Weight.isNaN s.weight = false) (hperm : offers.Perm offers')
    (hx : x ∈ (offerAll offers).keptAt place) :
    ∃ y ∈ (offerAll offers').keptAt place, y.Same x := by
  have hfront := (records_offerAll hdir).mem_paretoFront hnum hx
  rw [paretoFront_perm hperm] at hfront
  exact (records_offerAll fun s hs => hdir s (hperm.mem_iff.mpr hs)).exists_mem_keptAt
    (fun s hs => hnum s (hperm.mem_iff.mpr hs)) hfront

/-- With exact weights the labels kept for a place are the same list up to its order. -/
theorem keptAt_perm {offers offers' : List (State Exact)}
    (hdir : ∀ s ∈ offers, s.arriveBy = arriveBy)
    (hnum : ∀ s ∈ offers, Weight.isNaN s.weight = false) (hperm : offers.Perm offers')
    (place : Place) :
    ((offerAll offers).keptAt place).Perm ((offerAll offers').keptAt place) := by
  have hdir' : ∀ s ∈ offers', s.arriveBy = arriveBy := fun s hs => hdir s (hperm.mem_iff.mpr hs)
  have hnum' : ∀ s ∈ offers', Weight.isNaN s.weight = false :=
    fun s hs => hnum s (hperm.mem_iff.mpr hs)
  -- a label that occurred twice would be the same as itself
  have hnodup : ∀ {l : List (State Exact)}, (∀ s ∈ l, s.arriveBy = arriveBy) →
      (∀ s ∈ l, Weight.isNaN s.weight = false) → ((offerAll l).keptAt place).Nodup := by
    intro l hl hn
    refine ((records_offerAll hl).pairwise_keptAt place).imp_of_mem fun hx _ hne heq => hne ?_
    obtain ⟨⟨s, hs, -, rfl⟩, -⟩ := (records_offerAll hl).mem_paretoFront hn hx
    exact heq ▸ .self (hn s hs)
  refine (List.perm_ext_iff_of_nodup (hnodup hdir hnum) (hnodup hdir' hnum')).mpr fun x =>
    ⟨fun hx => ?_, fun hx => ?_⟩
  · obtain ⟨y, hy, hsame⟩ := exists_mem_keptAt_of_perm hdir hnum hperm hx
    exact hsame.eq ▸ hy
  · obtain ⟨y, hy, hsame⟩ := exists_mem_keptAt_of_perm hdir' hnum' hperm.symm hx
    exact hsame.eq ▸ hy

/-- A frontier to which states are offered is the Pareto front of their labels. A state is admitted
exactly when no state that was offered before is at least as good; in the end the labels kept for
each place are those of the states offered there that none betters, each once; and the same ones
are kept in whatever order the states are offered. -/
theorem pareto_front [Weight.Preordered W] (hdir : ∀ s ∈ offers, s.arriveBy = arriveBy)
    (hnum : ∀ s ∈ offers, Weight.isNaN s.weight = false) :
    (∀ before s after, offers = before ++ s :: after →
      (((offerAll before).admit? s).isSome = true ↔
        ∀ a ∈ before, a.label.dominates arriveBy s.label = false)) ∧
    (∀ place,
      (∀ x ∈ (offerAll offers).keptAt place, x ∈ paretoFront arriveBy offers place) ∧
      (∀ x ∈ paretoFront arriveBy offers place,
        ∃ y ∈ (offerAll offers).keptAt place, y.Same x) ∧
      ((offerAll offers).keptAt place).Pairwise fun x y => ¬ x.Same y) ∧
    (∀ offers', offers.Perm offers' → ∀ place,
      (∀ x ∈ (offerAll offers).keptAt place,
        ∃ y ∈ (offerAll offers').keptAt place, y.Same x) ∧
      (∀ y ∈ (offerAll offers').keptAt place,
        ∃ x ∈ (offerAll offers).keptAt place, x.Same y)) := by
  have hall := records_offerAll hdir
  refine ⟨fun before s after heq => ?_, fun place => ?_, fun offers' hperm place => ⟨?_, ?_⟩⟩
  · subst heq
    obtain ⟨hbefore, hafter⟩ := List.forall_mem_append.mp hdir
    obtain rfl := hafter s List.mem_cons_self
    exact (records_offerAll hbefore).isSome_admit?_iff
  · exact ⟨fun x hx => hall.mem_paretoFront hnum hx, fun x hx => hall.exists_mem_keptAt hnum hx,
      hall.pairwise_keptAt place⟩
  · exact fun x hx => exists_mem_keptAt_of_perm hdir hnum hperm hx
  · exact fun y hy => exists_mem_keptAt_of_perm (fun s hs => hdir s (hperm.mem_iff.mpr hs))
      (fun s hs => hnum s (hperm.mem_iff.mpr hs)) hperm.symm hy

/-- A traveller who stands at a corner at some time, for some weight. -/
def atCorner (time : Int) (weight : ℚ) : State Exact :=
  { (State.origin 0 time {} : State Exact) with weight := .finite weight }

/-- Four ways to the corner: the third is better than the first, and the fourth is the first
again. -/
def waysToCorner : List (State Exact) :=
  [atCorner 300 5, atCorner 400 3, atCorner 200 4, atCorner 300 5]

/-- The first way is dropped for the third and is refused when it comes again, though its label is
not kept; the second and the third are kept, as they are when the ways come in reverse. -/
theorem waysToCorner_front :
    (∀ s ∈ waysToCorner, s.arriveBy = false) ∧
    (∀ s ∈ waysToCorner, Weight.isNaN s.weight = false) ∧
    ((offerAll [atCorner 300 5, atCorner 400 3]).admit? (atCorner 200 4)).isSome = true ∧
    ((offerAll (waysToCorner.take 3)).admit? (atCorner 300 5)).isSome = false ∧
    ((offerAll waysToCorner).keptAt (atCorner 300 5).place).map (·.weight) =
      [.finite 3, .finite 4] ∧
    (∀ x ∈ (offerAll waysToCorner).keptAt (atCorner 300 5).place,
      x ∈ paretoFront false waysToCorner (atCorner 300 5).place ∧
        ∃ y ∈ (offerAll waysToCorner.reverse).keptAt (atCorner 300 5).place, y.Same x) := by
  have hdir : ∀ s ∈ waysToCorner, s.arriveBy = false := by decide
  have hnum : ∀ s ∈ waysToCorner, Weight.isNaN s.weight = false := by decide
  obtain ⟨hoffer, hfront, hperm⟩ := pareto_front hdir hnum
  refine ⟨hdir, hnum, (hoffer _ _ [atCorner 300 5] rfl).mpr (by decide +kernel),
    Bool.eq_false_iff.mpr fun h => ?_, by decide +kernel, fun x hx => ⟨(hfront _).1 x hx,
      (hperm _ (List.reverse_perm _).symm _).1 x hx⟩⟩
  have hrefused := (hoffer (waysToCorner.take 3) _ [] rfl).mp h (atCorner 200 4)
    (by simp [waysToCorner])
  exact absurd hrefused (by decide +kernel)

end Frontier

end JourneyPlanner
