import Mathlib.Data.Set.Card
import Std.Data.HashMap.Lemmas
import JourneyPlanner.Monitoring.Air
import JourneyPlanner.Monitoring.Survey
import JourneyPlanner.Proofs.Network.Built
import JourneyPlanner.Proofs.Network.EdgeEnds

/-!
# What a survey writes

A survey sets the exposures of exactly the edges that are near a station with measurements, and what
it sets on an edge sums up the readings of all such stations near that edge (`Survey.apply_sets`).
Nothing else of the network changes, and a second time changes nothing at all. The same comes out
when the readings are first grouped by edge and by kind in two layers of hash tables, and the tables
are then written back in whatever order they are gone through (`Survey.group`).
-/

namespace JourneyPlanner

/-! ## The exposures that readings amount to -/

namespace Exposure

/-- The place of a kind in the order of the kinds. -/
def Kind.place : Kind → Nat
  | .pollution => 0
  | .allergic => 1
  | .noise => 2

theorem Kind.place_injective : Function.Injective Kind.place := by
  intro a b h
  cases a <;> cases b <;> first | rfl | cases h

/-- The values of one kind among readings. -/
def valuesOf (kind : Kind) (readings : List Reading) : List Float :=
  (readings.filter (·.kind == kind)).map (·.value)

/-- A list has one exposure for each kind that is read, in the order of the kinds, and each is
combined from the values of its kind. -/
structure Summarizes (l : List Exposure) (readings : List Reading) : Prop where
  ordered : l.Pairwise (·.kind.place < ·.kind.place)
  kinds : ∀ kind, (∃ x ∈ l, x.kind = kind) ↔ ∃ r ∈ readings, r.kind = kind
  combined : ∀ x ∈ l, combine x.kind (valuesOf x.kind readings) = some x

variable {kind : Kind} {values : List Float} {readings : List Reading} {l l' : List Exposure}
  {x : Exposure}

theorem combine_eq_none : combine kind values = none ↔ values = [] := by
  unfold combine
  split_ifs with h
  · exact iff_of_true rfl (List.isEmpty_iff.mp h)
  · exact iff_of_false nofun fun hv => h (List.isEmpty_iff.mpr hv)

theorem kind_of_combine (h : combine kind values = some x) : x.kind = kind := by
  unfold combine at h
  split_ifs at h
  exact (Option.some.inj h) ▸ rfl

theorem valuesOf_append (kind : Kind) (readings others : List Reading) :
    valuesOf kind (readings ++ others) = valuesOf kind readings ++ valuesOf kind others := by
  unfold valuesOf
  rw [List.filter_append, List.map_append]

theorem valuesOf_eq_nil : valuesOf kind readings = [] ↔ ¬ ∃ r ∈ readings, r.kind = kind := by
  unfold valuesOf
  rw [List.map_eq_nil_iff, List.filter_eq_nil_iff]
  simp only [beq_iff_eq, not_exists, not_and]

/-- A list that is ordered by kind, and holds what the values of each kind combine to and nothing
else, sums up the readings. -/
theorem summarizes_of_mem_iff (hordered : l.Pairwise (·.kind.place < ·.kind.place))
    (h : ∀ x, x ∈ l ↔ combine x.kind (valuesOf x.kind readings) = some x) :
    Summarizes l readings where
  ordered := hordered
  combined x hx := (h x).mp hx
  kinds kind := by
    constructor
    · rintro ⟨x, hx, rfl⟩
      by_contra hnone
      have hx := (h x).mp hx
      rw [combine_eq_none.mpr (valuesOf_eq_nil.mpr hnone)] at hx
      cases hx
    · intro hread
      cases hc : combine kind (valuesOf kind readings) with
      | none => exact absurd hread (valuesOf_eq_nil.mp (combine_eq_none.mp hc))
      | some x =>
        have hkind := kind_of_combine hc
        exact ⟨x, (h x).mpr (hkind.symm ▸ hc), hkind⟩

theorem Summarizes.mem_iff (h : Summarizes l readings) (x : Exposure) :
    x ∈ l ↔ combine x.kind (valuesOf x.kind readings) = some x := by
  refine ⟨h.combined x, fun hx => ?_⟩
  have hread : ∃ r ∈ readings, r.kind = x.kind := by
    by_contra hnone
    rw [combine_eq_none.mpr (valuesOf_eq_nil.mpr hnone)] at hx
    cases hx
  obtain ⟨y, hy, hkind⟩ := (h.kinds x.kind).mpr hread
  have hyx := h.combined y hy
  rw [hkind, hx] at hyx
  exact Option.some.inj hyx ▸ hy

theorem Summarizes.unique (h : Summarizes l readings) (h' : Summarizes l' readings) : l = l' := by
  have hnodup {l : List Exposure} (h : Summarizes l readings) : l.Nodup :=
    h.ordered.imp fun hlt heq => (heq ▸ hlt).false
  have hperm : l.Perm l' := (List.perm_ext_iff_of_nodup (hnodup h) (hnodup h')).mpr fun x =>
    (h.mem_iff x).trans (h'.mem_iff x).symm
  exact hperm.eq_of_pairwise (fun x y _ _ hxy hyx => (hxy.asymm hyx).elim) h.ordered h'.ordered

theorem summarizes_ofReadings (readings : List Reading) :
    Summarizes (ofReadings readings) readings := by
  refine summarizes_of_mem_iff ?_ fun x => ?_
  · have hall : Kind.all.Pairwise (·.place < ·.place) := by decide
    exact hall.filterMap _ fun a b hab x hx y hy => by
      rw [kind_of_combine hx, kind_of_combine hy]
      exact hab
  · unfold ofReadings
    rw [List.mem_filterMap]
    constructor
    · rintro ⟨kind, -, h⟩
      exact (kind_of_combine h).symm ▸ h
    · exact fun h => ⟨x.kind, Kind.mem_all _, h⟩

end Exposure

/-! ## Every network -/

/-- A network that can be made: a draft is finished or a description built, and then exposures,
calendar and transfer rules are changed. -/
inductive Network.Made : Network → Prop
  | finished (calendar : ServiceCalendar) (ops : List Operation) :
    Made (Draft.after calendar ops).toNetwork
  | built {d : NetworkDescription} {zones : ZoneDatabase} {n : Network}
    (h : d.build zones = .ok n) : Made n
  | setExposures {n : Network} (h : Made n) (e : EdgeId) (exposures : List Exposure) :
    Made (n.setExposures e exposures)
  | setCalendar {n : Network} (h : Made n) (calendar : ServiceCalendar) :
    Made (n.setCalendar calendar)
  | setTransfers {n : Network} (h : Made n) (transfers : TransferTable) :
    Made (n.setTransfers transfers)

namespace Network

variable {n : Network} {id : EdgeId} {p : Point} {radius : Float}

theorem Made.edge_id (hn : n.Made) : ∀ (i : Nat) e, n.edges[i]? = some e → e.id = i := by
  induction hn with
  | finished calendar ops => exact Draft.numbered_after calendar ops
  | built h =>
    obtain ⟨calendar, draft, -, hdraft, rfl⟩ := NetworkDescription.build_eq_ok h
    exact (NetworkDescription.wired_addAll hdraft
      ⟨Draft.wired_empty calendar, Draft.onGround_empty calendar⟩).edge_id
  | setExposures _ _ _ ih => exact ih
  | setCalendar _ _ ih => exact ih
  | setTransfers _ _ ih => exact ih

theorem Made.ids_nodup (hn : n.Made) : (n.edges.toList.map (·.id)).Nodup := by
  rw [List.nodup_iff_getElem?_ne_getElem?]
  intro i j hij hj heq
  have hid (k : Nat) (hk : k < (n.edges.toList.map (·.id)).length) :
      (n.edges.toList.map (·.id))[k]? = some k := by
    rw [List.length_map] at hk
    rw [List.getElem?_map, List.getElem?_eq_getElem hk, Option.map_some,
      hn.edge_id k _ (by rw [← Array.getElem?_toList, List.getElem?_eq_getElem hk])]
  rw [hid i (hij.trans hj), hid j hj] at heq
  exact hij.ne (Option.some.inj heq)

theorem Made.eq_of_id (hn : n.Made) {e f : Edge} (he : e ∈ n.edges.toList)
    (hf : f ∈ n.edges.toList) (h : e.id = f.id) : e = f :=
  List.inj_on_of_nodup_map hn.ids_nodup he hf h

theorem Made.mem_streetsNear (hn : n.Made) {e : Edge} (he : e ∈ n.edges.toList) :
    e.id ∈ n.streetsNear p radius ↔ n.isStreetNear p radius e = true := by
  unfold streetsNear
  rw [List.mem_map]
  constructor
  · rintro ⟨f, hf, hid⟩
    obtain ⟨hf, hnear⟩ := List.mem_filter.mp hf
    rwa [hn.eq_of_id hf he hid] at hnear
  · exact fun h => ⟨e, List.mem_filter.mpr ⟨he, h⟩, rfl⟩

theorem Made.streetsNear_nodup (hn : n.Made) : (n.streetsNear p radius).Nodup :=
  hn.ids_nodup.sublist (List.filter_sublist.map _)

theorem exists_edge_of_mem_streetsNear (h : id ∈ n.streetsNear p radius) :
    ∃ e ∈ n.edges.toList, e.id = id := by
  obtain ⟨e, he, rfl⟩ := List.mem_map.mp h
  exact ⟨e, (List.mem_filter.mp he).1, rfl⟩

/-! ## Exposures set one after another -/

/-- A network with the exposures of several edges set in turn. -/
def setAll (n : Network) (changes : List (EdgeId × List Exposure)) : Network :=
  changes.foldl (fun n (e, exposures) => n.setExposures e exposures) n

variable {changes : List (EdgeId × List Exposure)}

theorem setAll_cons (n : Network) (change : EdgeId × List Exposure) :
    n.setAll (change :: changes) = (n.setExposures change.1 change.2).setAll changes := rfl

theorem Made.setAll (hn : n.Made) (changes : List (EdgeId × List Exposure)) :
    (n.setAll changes).Made := by
  induction changes generalizing n with
  | nil => exact hn
  | cons change changes ih => exact ih (hn.setExposures change.1 change.2)

theorem getElem?_setExposures (n : Network) (e id : EdgeId) (exposures : List Exposure) :
    (n.setExposures e exposures).conditions[id]? =
      if e = id then some exposures else n.conditions[id]? := by
  show (n.conditions.insert e exposures)[id]? = _
  rw [Std.TreeMap.getElem?_insert]
  simp only [Nat.compare_eq_eq]

theorem setAll_eq : ∀ (changes : List (EdgeId × List Exposure)) (n : Network),
    { n.setAll changes with conditions := n.conditions } = n
  | [], _ => rfl
  | change :: changes, n => by
    have ih := setAll_eq changes (n.setExposures change.1 change.2)
    rw [setAll_cons]
    calc { (n.setExposures change.1 change.2).setAll changes with conditions := n.conditions }
      _ = { { (n.setExposures change.1 change.2).setAll changes with
              conditions := (n.setExposures change.1 change.2).conditions } with
            conditions := n.conditions } := rfl
      _ = { n.setExposures change.1 change.2 with conditions := n.conditions } := by rw [ih]
      _ = n := rfl

theorem getElem?_setAll_of_not_mem (h : id ∉ changes.map Prod.fst) (n : Network) :
    (n.setAll changes).conditions[id]? = n.conditions[id]? := by
  induction changes generalizing n with
  | nil => rfl
  | cons change changes ih =>
    rw [List.map_cons, List.mem_cons, not_or] at h
    rw [setAll_cons, ih h.2, getElem?_setExposures, if_neg (Ne.symm h.1)]

theorem getElem?_setAll_of_mem {exposures : List Exposure} (hnodup : (changes.map Prod.fst).Nodup)
    (h : (id, exposures) ∈ changes) (n : Network) :
    (n.setAll changes).conditions[id]? = some exposures := by
  induction changes generalizing n with
  | nil => cases h
  | cons change changes ih =>
    rw [List.map_cons, List.nodup_cons] at hnodup
    rw [setAll_cons]
    rcases List.mem_cons.mp h with rfl | h
    · rw [getElem?_setAll_of_not_mem hnodup.1, getElem?_setExposures, if_pos rfl]
    · exact ih hnodup.2 h _

end Network

/-! ## The stations that speak for an edge -/

namespace Survey

variable {S : Type} [Station S] {n : Network} {id : EdgeId}

/-- The stations that have measured something and have the edge among the streets near them. -/
def speaking (s : Survey S) (n : Network) (id : EdgeId) : List S :=
  s.stations.filter fun station =>
    Station.isMeasuring station && (n.streetsNear (Station.point station) s.radius).contains id

/-- The readings of these stations. -/
def heard (s : Survey S) (n : Network) (id : EdgeId) : List Exposure.Reading :=
  (s.speaking n id).flatMap Station.readings

variable (s : Survey S)

theorem near_eq (hn : n.Made) {e : Edge} (he : e ∈ n.edges.toList) :
    s.near n e = s.speaking n e.id := by
  refine List.filter_congr fun station _ => ?_
  rw [Bool.eq_iff_iff, Bool.and_eq_true, Bool.and_eq_true, List.contains_iff_mem,
    hn.mem_streetsNear he]

theorem exists_edge_of_speaking (h : s.speaking n id ≠ []) : ∃ e ∈ n.edges.toList, e.id = id := by
  obtain ⟨station, hstation⟩ := List.exists_mem_of_ne_nil _ h
  have hnear := (Bool.and_eq_true_iff.mp (List.mem_filter.mp hstation).2).2
  exact Network.exists_edge_of_mem_streetsNear (List.contains_iff_mem.mp hnear)

/-- A survey sets the exposures of an edge if a station speaks for it, and then to what the readings
of all these stations amount to. -/
theorem mem_exposures (hn : n.Made) {exposures : List Exposure} :
    (id, exposures) ∈ s.exposures n ↔
      s.speaking n id ≠ [] ∧ exposures = Exposure.ofReadings (s.heard n id) := by
  unfold Survey.exposures
  rw [List.mem_filterMap]
  constructor
  · rintro ⟨e, he, h⟩
    rw [s.near_eq hn he] at h
    split at h
    · cases h
    · rename_i hne
      obtain ⟨rfl, rfl⟩ := Prod.mk.inj (Option.some.inj h)
      exact ⟨hne, rfl⟩
  · rintro ⟨hne, rfl⟩
    obtain ⟨e, he, rfl⟩ := s.exists_edge_of_speaking hne
    refine ⟨e, he, ?_⟩
    rw [s.near_eq hn he]
    split
    · contradiction
    · rfl

theorem mem_keys_exposures (hn : n.Made) :
    id ∈ (s.exposures n).map Prod.fst ↔ s.speaking n id ≠ [] := by
  rw [List.mem_map]
  constructor
  · rintro ⟨⟨_, exposures⟩, h, rfl⟩
    exact ((s.mem_exposures hn).mp h).1
  · exact fun h => ⟨_, (s.mem_exposures hn).mpr ⟨h, rfl⟩, rfl⟩

theorem keys_exposures_nodup (hn : n.Made) : ((s.exposures n).map Prod.fst).Nodup := by
  have hids : n.edges.toList.Pairwise (·.id ≠ ·.id) := List.pairwise_map.mp hn.ids_nodup
  refine List.pairwise_map.mpr (hids.filterMap _ fun e f hne x hx y hy => ?_)
  split at hx
  · cases hx
  · split at hy
    · cases hy
    · obtain rfl := Option.some.inj hx
      obtain rfl := Option.some.inj hy
      exact hne

/-- A network is another one with the exposures that a survey sets: those of an edge that stations
speak for sum up what they say, and nothing else is changed. -/
structure Sets (n n' : Network) : Prop where
  heard : ∀ id, s.speaking n id ≠ [] →
    ∃ l, n'.conditions[id]? = some l ∧ Exposure.Summarizes l (s.heard n id)
  unheard : ∀ id, s.speaking n id = [] → n'.conditions[id]? = n.conditions[id]?
  rest : { n' with conditions := n.conditions } = n

variable {s} {n' n'' : Network} {changes : List (EdgeId × List Exposure)}

/-- Exposures that are set once for each edge that stations speak for, and sum up what they say. -/
theorem sets_setAll (hnodup : (changes.map Prod.fst).Nodup)
    (hkeys : ∀ id, id ∈ changes.map Prod.fst ↔ s.speaking n id ≠ [])
    (hchanges : ∀ change ∈ changes, Exposure.Summarizes change.2 (s.heard n change.1)) :
    s.Sets n (n.setAll changes) where
  heard id h := by
    obtain ⟨⟨_, l⟩, hmem, rfl⟩ := List.mem_map.mp ((hkeys id).mpr h)
    exact ⟨l, Network.getElem?_setAll_of_mem hnodup hmem n, hchanges _ hmem⟩
  unheard id h := Network.getElem?_setAll_of_not_mem (fun hmem => (hkeys id).mp hmem h) n
  rest := Network.setAll_eq changes n

/-- Stations speak for an edge whatever its exposures are. -/
theorem Sets.speaking_eq (h : s.Sets n n') : s.speaking n' = s.speaking n := by
  rw [← h.rest]
  rfl

theorem Sets.count_eq (h : s.Sets n n') : s.count n' = s.count n := by
  rw [← h.rest]
  rfl

/-- A survey sets the same exposures however it goes about it. -/
theorem Sets.getElem?_eq (h : s.Sets n n') (h' : s.Sets n n'') (id : EdgeId) :
    n'.conditions[id]? = n''.conditions[id]? := by
  by_cases hs : s.speaking n id = []
  · rw [h.unheard id hs, h'.unheard id hs]
  · obtain ⟨l, hl, hsum⟩ := h.heard id hs
    obtain ⟨l', hl', hsum'⟩ := h'.heard id hs
    rw [hl, hl', hsum.unique hsum']

theorem Sets.getElem?_again (h : s.Sets n n') (h' : s.Sets n' n'') (id : EdgeId) :
    n''.conditions[id]? = n'.conditions[id]? := by
  by_cases hs : s.speaking n id = []
  · exact h'.unheard id (h.speaking_eq ▸ hs)
  · obtain ⟨l, hl, hsum⟩ := h.heard id hs
    obtain ⟨l', hl', hsum'⟩ := h'.heard id (h.speaking_eq ▸ hs)
    have hheard : s.heard n' id = s.heard n id := by
      unfold Survey.heard
      rw [h.speaking_eq]
    rw [hl, hl', hsum.unique (hheard ▸ hsum')]

theorem apply_eq (s : Survey S) (n : Network) : s.apply n = n.setAll (s.exposures n) := rfl

theorem sets_apply (s : Survey S) (hn : n.Made) : s.Sets n (s.apply n) := by
  rw [apply_eq]
  refine sets_setAll (s.keys_exposures_nodup hn) (fun id => s.mem_keys_exposures hn) ?_
  rintro ⟨id, l⟩ hmem
  obtain ⟨-, rfl⟩ := (s.mem_exposures hn).mp hmem
  exact Exposure.summarizes_ofReadings _

theorem made_apply (s : Survey S) (hn : n.Made) : (s.apply n).Made := hn.setAll (s.exposures n)

theorem encard_speaking (s : Survey S) (hn : n.Made) :
    {id | s.speaking n id ≠ []}.encard = s.count n := by
  have hset : {id | s.speaking n id ≠ []} = ((s.exposures n).map Prod.fst).toFinset := by
    rw [List.coe_toFinset]
    exact Set.ext fun id => (s.mem_keys_exposures hn).symm
  rw [hset, Set.encard_coe_eq_coe_finsetCard,
    List.toFinset_card_of_nodup (s.keys_exposures_nodup hn), List.length_map]
  rfl

end Survey

/-! ## Readings grouped by edge and by kind -/

instance : Hashable Exposure.Kind := ⟨fun kind => hash kind.place⟩

namespace Exposure

/-- Values by kind. -/
abbrev Values := Std.HashMap Kind (List Float)

/-- The values with one more of a kind. -/
def Values.add (v : Values) (r : Reading) : Values :=
  v.alter r.kind fun values => some (values.getD [] ++ [r.value])

/-- The values are those of the readings, and there is none of a kind that is not read. -/
def Values.Holds (v : Values) (readings : List Reading) : Prop :=
  ∀ kind values, v[kind]? = some values ↔ values ≠ [] ∧ valuesOf kind readings = values

variable {v : Values} {readings : List Reading}

theorem Values.holds_empty : Values.Holds ∅ [] := by
  intro kind values
  rw [Std.HashMap.getElem?_empty]
  exact iff_of_false nofun fun h => h.1 h.2.symm

theorem Values.Holds.getD_eq (h : v.Holds readings) (kind : Kind) :
    v[kind]?.getD [] = valuesOf kind readings := by
  cases hv : v[kind]? with
  | some values => exact ((h kind values).mp hv).2.symm
  | none =>
    by_contra hne
    have hsome := (h kind (valuesOf kind readings)).mpr ⟨Ne.symm hne, rfl⟩
    rw [hv] at hsome
    cases hsome

theorem Values.Holds.add (h : v.Holds readings) (r : Reading) :
    (v.add r).Holds (readings ++ [r]) := by
  intro kind values
  unfold Values.add
  rw [Std.HashMap.getElem?_alter, h.getD_eq, valuesOf_append]
  by_cases hkind : r.kind = kind
  · subst hkind
    have hone : valuesOf r.kind [r] = [r.value] := by simp [valuesOf]
    rw [if_pos (beq_self_eq_true _), hone, Option.some.injEq]
    exact ⟨fun heq => ⟨heq ▸ List.concat_ne_nil _ _, heq⟩, And.right⟩
  · have hnone : valuesOf kind [r] = [] := valuesOf_eq_nil.mpr (by simpa using hkind)
    rw [if_neg (by simpa using hkind), hnone, List.append_nil]
    exact h kind values

theorem Values.Holds.addAll (h : v.Holds readings) (more : List Reading) :
    (more.foldl Values.add v).Holds (readings ++ more) := by
  induction more generalizing v readings with
  | nil => rwa [List.append_nil]
  | cons r more ih => simpa using ih (h.add r)

/-- What values combine to, gone through in some order and then sorted by kind. -/
def sorted (entries : List (Kind × List Float)) : List Exposure :=
  (entries.filterMap fun (kind, values) => combine kind values).mergeSort fun x y =>
    decide (x.kind.place ≤ y.kind.place)

theorem sorted_perm (entries : List (Kind × List Float)) :
    (sorted entries).Perm (entries.filterMap fun (kind, values) => combine kind values) :=
  List.mergeSort_perm _ _

theorem sorted_pairwise_le (entries : List (Kind × List Float)) :
    (sorted entries).Pairwise (·.kind.place ≤ ·.kind.place) := by
  refine (List.pairwise_mergeSort ?_ ?_ _).imp of_decide_eq_true
  · intro x y z hxy hyz
    exact decide_eq_true (Nat.le_trans (of_decide_eq_true hxy) (of_decide_eq_true hyz))
  · intro x y
    simpa using Nat.le_total x.kind.place y.kind.place

theorem Values.Holds.summarizes (h : v.Holds readings) {entries : List (Kind × List Float)}
    (horder : entries.Perm v.toList) : Summarizes (sorted entries) readings := by
  refine summarizes_of_mem_iff ?_ fun x => ?_
  · have hkeys : entries.Pairwise (·.1 ≠ ·.1) := by
      refine (horder.pairwise_iff fun h => h.symm).mpr ?_
      exact Std.HashMap.distinct_keys_toList.imp fun h heq => by simp [heq] at h
    have hne : (sorted entries).Pairwise (·.kind ≠ ·.kind) := by
      refine ((sorted_perm entries).pairwise_iff fun h => h.symm).mpr (hkeys.filterMap _ ?_)
      rintro ⟨a, va⟩ ⟨b, vb⟩ hab x hx y hy
      rw [kind_of_combine hx, kind_of_combine hy]
      exact hab
    exact (sorted_pairwise_le entries).imp₂
      (fun x y hle hne => lt_of_le_of_ne hle (Kind.place_injective.ne hne)) hne
  · rw [(sorted_perm entries).mem_iff, List.mem_filterMap]
    constructor
    · rintro ⟨⟨kind, values⟩, hmem, hx⟩
      have hget := Std.HashMap.mem_toList_iff_getElem?_eq_some.mp (horder.mem_iff.mp hmem)
      rw [kind_of_combine hx, ((h kind values).mp hget).2]
      exact hx
    · intro hx
      refine ⟨⟨x.kind, valuesOf x.kind readings⟩, horder.mem_iff.mpr ?_, hx⟩
      refine Std.HashMap.mem_toList_iff_getElem?_eq_some.mpr ((h _ _).mpr ⟨fun hnil => ?_, rfl⟩)
      rw [combine_eq_none.mpr hnil] at hx
      cases hx

end Exposure

/-- Values by kind, for each edge that has been spoken for. -/
abbrev Groups := Std.HashMap EdgeId Exposure.Values

namespace Groups

variable {S : Type} [Station S]

/-- The groups after an edge has taken the readings of one station. -/
def take (readings : List Exposure.Reading) (g : Groups) (id : EdgeId) : Groups :=
  g.alter id fun values => some (readings.foldl Exposure.Values.add (values.getD ∅))

/-- The groups after all streets near a station have taken its readings. -/
def hear (n : Network) (radius : Float) (g : Groups) (station : S) : Groups :=
  (n.streetsNear (Station.point station) radius).foldl (take (Station.readings station)) g

/-- Each group is written once, in whatever order the groups, and the kinds of each, are gone
through. -/
structure Writes (g : Groups) (changes : List (EdgeId × List Exposure)) : Prop where
  keys : (changes.map Prod.fst).Perm g.keys
  entries : ∀ change ∈ changes, ∃ values, g[change.1]? = some values ∧
    ∃ entries, entries.Perm values.toList ∧ change.2 = Exposure.sorted entries

/-- There is a group for each edge that has stations, and it holds their readings. -/
def Holds (g : Groups) (stations : EdgeId → List S) : Prop :=
  ∀ id, if stations id = [] then g[id]? = none else
    ∃ v, g[id]? = some v ∧ v.Holds ((stations id).flatMap Station.readings)

variable {n : Network} {radius : Float} {g : Groups} {stations : EdgeId → List S}

theorem getElem?_foldl_take {ids : List EdgeId} (hnodup : ids.Nodup)
    (readings : List Exposure.Reading) (g : Groups) (id : EdgeId) :
    (ids.foldl (take readings) g)[id]? =
      if id ∈ ids then some (readings.foldl Exposure.Values.add (g[id]?.getD ∅)) else g[id]? := by
  induction ids generalizing g with
  | nil => rfl
  | cons first ids ih =>
    obtain ⟨hfirst, hnodup⟩ := List.nodup_cons.mp hnodup
    have htake : (take readings g first)[id]? =
        if first = id then some (readings.foldl Exposure.Values.add (g[id]?.getD ∅))
          else g[id]? := by
      unfold take
      rw [Std.HashMap.getElem?_alter]
      by_cases h : first = id
      · rw [if_pos (beq_iff_eq.mpr h), if_pos h, h]
      · rw [if_neg (by simpa using h), if_neg h]
    rw [List.foldl_cons, ih hnodup, htake]
    by_cases h : first = id
    · subst h
      rw [if_neg hfirst, if_pos rfl, if_pos List.mem_cons_self]
    · simp only [if_neg h, List.mem_cons, or_iff_right (Ne.symm h)]

theorem holds_empty : Groups.Holds ∅ fun _ => ([] : List S) := by
  intro id
  rw [if_pos rfl, Std.HashMap.getElem?_empty]

/-- One station more is heard on the streets near it, and nowhere else. -/
theorem Holds.hear (hn : n.Made) (h : g.Holds stations) (station : S) :
    (hear n radius g station).Holds fun id =>
      stations id ++ [station].filter fun station =>
        (n.streetsNear (Station.point station) radius).contains id := by
  intro id
  have hid := h id
  unfold Groups.hear
  rw [getElem?_foldl_take hn.streetsNear_nodup]
  beta_reduce
  by_cases hnear : id ∈ n.streetsNear (Station.point station) radius
  · have hheld : (g[id]?.getD ∅).Holds ((stations id).flatMap Station.readings) := by
      split_ifs at hid with hnone
      · rw [hid, hnone]
        exact Exposure.Values.holds_empty
      · obtain ⟨v, hv, hholds⟩ := hid
        rwa [hv]
    rw [List.filter_singleton, List.contains_iff_mem.mpr hnear, cond_true,
      if_neg (List.concat_ne_nil _ _), if_pos hnear]
    refine ⟨_, rfl, ?_⟩
    rw [List.flatMap_append, List.flatMap_singleton]
    exact hheld.addAll _
  · rwa [List.filter_singleton, Bool.eq_false_iff.mpr (mt List.contains_iff_mem.mp hnear),
      cond_false, List.append_nil, if_neg hnear]

/-- After a list of stations each edge holds the readings of those near it, in order. -/
theorem holds_foldl_hear (radius : Float) (hn : n.Made) (heard : List S) :
    (heard.foldl (Groups.hear n radius) ∅).Holds fun id => heard.filter fun station =>
      (n.streetsNear (Station.point station) radius).contains id := by
  induction heard using List.reverseRecOn with
  | nil => exact holds_empty
  | append_singleton heard station ih =>
    simp only [List.foldl_append, List.filter_append]
    exact ih.hear hn station

theorem Holds.mem_iff (h : g.Holds stations) (id : EdgeId) : id ∈ g ↔ stations id ≠ [] := by
  have hid := h id
  rw [Std.HashMap.mem_iff_isSome_getElem?]
  split_ifs at hid with hnone
  · simp [hid, hnone]
  · obtain ⟨v, hv, -⟩ := hid
    simp [hv, hnone]

end Groups

namespace Survey

variable {S : Type} [Station S] {n : Network}

/-- The readings of the stations that have measured something, by edge and by kind. -/
def group (s : Survey S) (n : Network) : Groups :=
  (s.stations.filter Station.isMeasuring).foldl (Groups.hear n s.radius) ∅

theorem holds_group (s : Survey S) (hn : n.Made) : (s.group n).Holds (s.speaking n) := by
  have h := Groups.holds_foldl_hear s.radius hn (s.stations.filter Station.isMeasuring)
  simp only [List.filter_filter, Bool.and_comm] at h
  exact h

/-- Writing the groups back, in any order, sets what the survey sets. -/
theorem sets_of_writes (s : Survey S) (hn : n.Made) {changes : List (EdgeId × List Exposure)}
    (h : (s.group n).Writes changes) : s.Sets n (n.setAll changes) := by
  have hholds := s.holds_group hn
  have hnodup := h.keys.nodup_iff.mpr Std.HashMap.nodup_keys
  refine sets_setAll hnodup (fun id => ?_) fun change hc => ?_
  · rw [h.keys.mem_iff, Std.HashMap.mem_keys, hholds.mem_iff]
  · obtain ⟨values, hvalues, entries, horder, hsorted⟩ := h.entries change hc
    have hid := hholds change.1
    split_ifs at hid with hnone
    · rw [hid] at hvalues
      cases hvalues
    · obtain ⟨v, hv, hv'⟩ := hid
      obtain rfl := Option.some.inj (hvalues.symm.trans hv)
      exact hsorted ▸ hv'.summarizes horder

theorem size_group (s : Survey S) (hn : n.Made) : (s.group n).size = s.count n := by
  have hperm : ((s.exposures n).map Prod.fst).Perm (s.group n).keys := by
    refine (List.perm_ext_iff_of_nodup (s.keys_exposures_nodup hn) Std.HashMap.nodup_keys).mpr ?_
    intro id
    rw [s.mem_keys_exposures hn, Std.HashMap.mem_keys, (s.holds_group hn).mem_iff]
  have hlength := hperm.length_eq
  rw [List.length_map, Std.HashMap.length_keys] at hlength
  exact hlength.symm

/-! ## What a survey does to a network -/

/-- A survey sets the exposures of the edges that stations speak for to what they say, changes
nothing else, and counts these edges; doing it again changes nothing and counts the same. Grouping
all readings by edge and by kind and writing the groups back in any order comes to the same. -/
theorem apply_sets (s : Survey S) (hn : n.Made) :
    s.Sets n (s.apply n) ∧
    {id | s.speaking n id ≠ []}.encard = s.count n ∧
    (∀ id : EdgeId, (s.apply (s.apply n)).conditions[id]? = (s.apply n).conditions[id]?) ∧
    s.count (s.apply n) = s.count n ∧
    (s.group n).size = s.count n ∧
    ∀ changes, (s.group n).Writes changes → s.Sets n (n.setAll changes) ∧
      ∀ id : EdgeId, (n.setAll changes).conditions[id]? = (s.apply n).conditions[id]? := by
  have hsets := s.sets_apply hn
  refine ⟨hsets, s.encard_speaking hn, hsets.getElem?_again (s.sets_apply (s.made_apply hn)),
    hsets.count_eq, s.size_group hn, fun changes h => ?_⟩
  have hsets' := s.sets_of_writes hn h
  exact ⟨hsets', hsets'.getElem?_eq hsets⟩

end Survey

/-! ## A survey of a park -/

/-- A path and a road between two corners of a park. -/
def park : List Operation :=
  [.streetVertex "gate" ⟨0.0, 0.0⟩, .streetVertex "pond" ⟨0.0, 0.001⟩,
    .street 0 1 "path" (some 100.0) .walkAndTransit false,
    .street 1 0 "road" (some 200.0) .walkAndTransit false]

/-- The network of the park. -/
def parkNetwork : Network := (Draft.after Draft.noService park).toNetwork

/-- A station at the gate that measures one pollutant. -/
def airStation (pollutant : Pollutant) (value : Float) : AirStation :=
  ⟨"park", "Madrid", "ES", [⟨pollutant, value, ⟨0, 0⟩, "µg/m³", "test"⟩], ⟨0.0, 0.0⟩⟩

/-- A station that measures nothing. -/
def silentStation : AirStation := ⟨"pond", "Madrid", "ES", [], ⟨0.0, 0.0⟩⟩

/-- Three stations at the gate, the second of which also measures allergens. -/
def parkSurvey : Survey AirStation :=
  ⟨[airStation .no2 40.0, airStation .pm10 50.0, silentStation], 100.0⟩

/-- Sines and arcsines of nothing are nothing, and the gate is no distance from itself. -/
theorem Point.distance_gate (hsin : Float.sin 0.0 = 0.0) (hcos : Float.cos 0.0 = 1.0)
    (hasin : Float.asin 0.0 = 0.0) : Point.distance ⟨0.0, 0.0⟩ ⟨0.0, 0.0⟩ = 0.0 := by
  have hhalf : radians (0.0 - 0.0) / 2.0 = 0.0 := by decide +kernel
  have hangle : radians 0.0 = 0.0 := by decide +kernel
  have hchord : Float.sqrt (0.0 * 0.0 + 1.0 * 1.0 * (0.0 * 0.0)) = 0.0 := by decide +kernel
  unfold distance
  simp only
  rw [hhalf, hangle, hsin, hcos, hchord, hasin]
  decide +kernel

theorem parkNetwork_made : parkNetwork.Made := .finished Draft.noService park

/-- The point of each street of the park that is nearest to the gate is the gate. -/
theorem isStreetNear_gate : ∀ e ∈ parkNetwork.edges.toList,
    parkNetwork.isStreetNear ⟨0.0, 0.0⟩ 100.0 e =
      decide (Point.distance ⟨0.0, 0.0⟩ ⟨0.0, 0.0⟩ ≤ (100.0 : Float)) := by
  intro e he
  have h : (parkNetwork.edges.toList.all fun e =>
      e.kind == .street && parkNetwork.vertices[e.tail]?.any fun a =>
        parkNetwork.vertices[e.head]?.any fun b =>
          decide ((Point.nearestOnSegment ⟨0.0, 0.0⟩ a.point b.point).longitude = 0.0) &&
            decide ((Point.nearestOnSegment ⟨0.0, 0.0⟩ a.point b.point).latitude = 0.0)) =
          true := by
    decide +kernel
  have h := List.all_eq_true.mp h e he
  rw [Bool.and_eq_true, beq_iff_eq] at h
  obtain ⟨hlink, h⟩ := h
  obtain ⟨a, ha, h⟩ := (Option.any_eq_true _ _).mp h
  obtain ⟨b, hb, h⟩ := (Option.any_eq_true _ _).mp h
  rw [Bool.and_eq_true, decide_eq_true_eq, decide_eq_true_eq] at h
  have hgate : Point.nearestOnSegment ⟨0.0, 0.0⟩ a.point b.point = ⟨0.0, 0.0⟩ :=
    congrArg₂ Point.mk h.1 h.2
  unfold Edge.kind at hlink
  unfold Network.isStreetNear
  cases hl : e.link with
  | street street => simp only [ha, hb, hgate]
  | board | alight | hop | dwell | timedTransfer => rw [hl] at hlink; cases hlink

/-- Both stations that measure something speak for each street, or none does. -/
theorem park_near : ∀ e ∈ parkNetwork.edges.toList, parkSurvey.near parkNetwork e =
    if Point.distance ⟨0.0, 0.0⟩ ⟨0.0, 0.0⟩ ≤ (100.0 : Float) then
      [airStation .no2 40.0, airStation .pm10 50.0] else [] := by
  intro e he
  have hmeasuring (pollutant : Pollutant) (value : Float) :
      (Station.isMeasuring (airStation pollutant value) &&
        parkNetwork.isStreetNear (Station.point (airStation pollutant value)) 100.0 e) =
          decide (Point.distance ⟨0.0, 0.0⟩ ⟨0.0, 0.0⟩ ≤ (100.0 : Float)) := isStreetNear_gate e he
  have hsilent : (Station.isMeasuring silentStation &&
      parkNetwork.isStreetNear (Station.point silentStation) 100.0 e) = false := rfl
  unfold Survey.near parkSurvey
  rw [List.filter_cons, List.filter_cons, List.filter_cons, List.filter_nil, hmeasuring, hmeasuring,
    hsilent]
  by_cases h : Point.distance ⟨0.0, 0.0⟩ ⟨0.0, 0.0⟩ ≤ (100.0 : Float)
  · rw [if_pos h, decide_eq_true h]
    rfl
  · rw [if_neg h, decide_eq_false h]
    rfl

/-- What they say: their pollution is combined, and the allergens of the second are kept. -/
def parkExposures : List Exposure :=
  [⟨.pollution, Exposure.mean [40.0 * 0.5, 50.0 * 0.67],
      Exposure.peakOf [40.0 * 0.5, 50.0 * 0.67]⟩,
    ⟨.allergic, Exposure.mean [Exposure.mean [50.0 * 1.0]],
      Exposure.peakOf [Exposure.mean [50.0 * 1.0]]⟩]

/-- The streets of the park are set when sines and arcsines of nothing are nothing. In any case both
are or none is. -/
theorem park_surveyed : parkNetwork.edges.size = 2 ∧
    (Float.sin 0.0 = 0.0 → Float.cos 0.0 = 1.0 → Float.asin 0.0 = 0.0 →
      ∀ e ∈ parkNetwork.edges.toList,
        (parkSurvey.apply parkNetwork).conditions[e.id]? = some parkExposures) ∧
    ((∀ e ∈ parkNetwork.edges.toList,
        (parkSurvey.apply parkNetwork).conditions[e.id]? = some parkExposures) ∨
      ∀ id : EdgeId, (parkSurvey.apply parkNetwork).conditions[id]? = none) ∧
    parkSurvey.count (parkSurvey.apply parkNetwork) = parkSurvey.count parkNetwork := by
  obtain ⟨hsets, -, -, hcount, -⟩ := parkSurvey.apply_sets parkNetwork_made
  have hspeaking : ∀ e ∈ parkNetwork.edges.toList, parkSurvey.speaking parkNetwork e.id =
      if Point.distance ⟨0.0, 0.0⟩ ⟨0.0, 0.0⟩ ≤ (100.0 : Float) then
        [airStation .no2 40.0, airStation .pm10 50.0] else [] := fun e he =>
    (parkSurvey.near_eq parkNetwork_made he).symm.trans (park_near e he)
  have hset : Point.distance ⟨0.0, 0.0⟩ ⟨0.0, 0.0⟩ ≤ (100.0 : Float) →
      ∀ e ∈ parkNetwork.edges.toList,
        (parkSurvey.apply parkNetwork).conditions[e.id]? = some parkExposures := by
    intro hgate e he
    have hboth := (hspeaking e he).trans (if_pos hgate)
    obtain ⟨l, hl, hsum⟩ := hsets.heard e.id (by rw [hboth]; exact List.cons_ne_nil _ _)
    unfold Survey.heard at hsum
    rw [hboth] at hsum
    rw [hl, hsum.unique (Exposure.summarizes_ofReadings _)]
    rfl
  refine ⟨by decide +kernel, fun hsin hcos hasin => hset ?_, ?_, hcount⟩
  · rw [Point.distance_gate hsin hcos hasin]
    decide +kernel
  · by_cases hgate : Point.distance ⟨0.0, 0.0⟩ ⟨0.0, 0.0⟩ ≤ (100.0 : Float)
    · exact .inl (hset hgate)
    · refine .inr fun id => (hsets.unheard id ?_).trans rfl
      by_contra hheard
      obtain ⟨e, he, rfl⟩ := parkSurvey.exists_edge_of_speaking hheard
      exact hheard ((hspeaking e he).trans (if_neg hgate))

end JourneyPlanner
