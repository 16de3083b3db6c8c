import Mathlib.Data.List.Sort
import SchemaAccessors.Proofs.Nesting

/-!
# The listing of all types

Whoever names a type compares its name with those of all types, so none may be missing where they are listed. Listing
goes round by round: the types in namespaces wait at first, and in each round the first type that waits is listed and
the types inside it wait behind the others (`Queue`). Where a level of types waits, the level below it waits behind it
once all of it is listed, so the rounds give the levels one after another. As every type has one container and lies
behind the type that it is inside of, each is in one level, and nothing waits after as many rounds as there are types.
-/

namespace SchemaAccessors

namespace Model

/-! ## Calls -/

/-- What can be asked of a model. -/
inductive Call
  | withNamespace (name : String)
  | declare (c : Container) (name doc : String)

/-- Types are declared in namespaces and types that are there. -/
def Call.isPossible (m : Model) : Call → Bool
  | .withNamespace _ => true
  | .declare (.top i) _ _ => decide (i < m.namespaces.length)
  | .declare (.inside outer) _ _ => decide (outer < m.types.length)

/-- The model behind a call, and the type that is declared unless the call is refused. -/
def afterCall (m : Model) : Call → Model × Option TypeId
  | .withNamespace name => ((m.withNamespace name).1, none)
  | .declare c name doc =>
    match m.declare c name doc with
    | .ok (m', id) => (m', some id)
    | .error _ => (m, none)

/-- The model behind some calls, and the types that are declared, in the order of the calls. -/
def afterCalls (m : Model) : List Call → Model × List TypeId
  | [] => (m, [])
  | c :: calls =>
    let (m', declared?) := m.afterCall c
    let (last, declared) := m'.afterCalls calls
    (last, declared?.toList ++ declared)

/-- Whether each of some calls is possible where it is made. -/
def arePossible (m : Model) : List Call → Bool
  | [] => true
  | c :: calls => c.isPossible m && (m.afterCall c).1.arePossible calls

/-- All types lie in namespaces and types that are there, each behind the type that it is inside of. -/
structure Housed (m : Model) : Prop where
  layered : m.Layered
  top : ∀ t ∈ m.types, ∀ i, t.container = .top i → i < m.namespaces.length

lemma housed_empty (reservedTypes reservedMembers : List String) : (empty reservedTypes reservedMembers).Housed where
  layered i o h := by
    obtain ⟨t, ht, -⟩ := outer?_eq_some.1 h
    cases ht
  top t ht := (List.not_mem_nil ht).elim

variable {m : Model}

lemma types_withNamespace (m : Model) (name : String) : (m.withNamespace name).1.types = m.types := by
  unfold withNamespace
  split <;> rfl

lemma namespaces_prefix_withNamespace (m : Model) (name : String) :
    m.namespaces <+: (m.withNamespace name).1.namespaces := by
  unfold withNamespace
  split
  · exact List.prefix_refl _
  · exact List.prefix_append _ _

lemma outer?_congr {m' : Model} (h : m'.types = m.types) (id : TypeId) : m'.outer? id = m.outer? id := by
  rw [outer?, outer?, h]

lemma Housed.withNamespace (hm : m.Housed) (name : String) : (m.withNamespace name).1.Housed where
  layered i o h := by
    rw [outer?_congr (m.types_withNamespace name)] at h
    exact hm.layered h
  top t ht i hi := by
    rw [types_withNamespace] at ht
    exact (hm.top t ht i hi).trans_le (m.namespaces_prefix_withNamespace name).length_le

lemma Housed.append (hm : m.Housed) {m' : Model} {new : WrapperType} {name doc : String}
    (happend : m'.types = m.types ++ [new]) (hnamespaces : m'.namespaces = m.namespaces)
    (hpossible : (Call.declare new.container name doc).isPossible m = true) : m'.Housed where
  layered := by
    refine hm.layered.append happend fun outer hc => ?_
    rw [hc] at hpossible
    exact of_decide_eq_true hpossible
  top t ht i hi := by
    rw [hnamespaces]
    rw [happend] at ht
    rcases List.mem_append.1 ht with ht | ht
    · exact hm.top t ht i hi
    · rw [List.mem_singleton.1 ht] at hi
      rw [hi] at hpossible
      exact of_decide_eq_true hpossible

lemma afterCall_of_free {c : Container} {name : String} (doc : String) (h : m.find? c name = none) :
    m.afterCall (.declare c name doc) =
      ({ m with types := m.types ++ [{ name, container := c, doc }] }, some m.types.length) := by
  rw [afterCall, declare_of_free doc h]

lemma afterCall_of_taken {c : Container} {name : String} {id : TypeId} (doc : String) (h : m.find? c name = some id) :
    m.afterCall (.declare c name doc) = (m, none) := by
  rw [afterCall, declare_of_taken doc h]

/-- A call keeps types housed, and declares the type behind those that there are or none. -/
lemma Housed.afterCall (hm : m.Housed) {c : Call} (hc : c.isPossible m = true) :
    (m.afterCall c).1.Housed ∧
      List.range m.types.length ++ (m.afterCall c).2.toList = List.range (m.afterCall c).1.types.length := by
  cases c with
  | withNamespace name =>
    refine ⟨hm.withNamespace name, ?_⟩
    show List.range m.types.length ++ [] = List.range (m.withNamespace name).1.types.length
    rw [types_withNamespace, List.append_nil]
  | declare c name doc =>
    cases hfind : m.find? c name with
    | none =>
      rw [afterCall_of_free doc hfind]
      refine ⟨hm.append rfl rfl hc, ?_⟩
      rw [List.length_append, List.length_singleton, List.range_succ]
      rfl
    | some sibling =>
      rw [afterCall_of_taken doc hfind]
      exact ⟨hm, List.append_nil _⟩

/-- Calls keep types housed, and declare the types behind those that there are. -/
lemma Housed.afterCalls (hm : m.Housed) {calls : List Call} (hcalls : m.arePossible calls = true) :
    (m.afterCalls calls).1.Housed ∧
      List.range m.types.length ++ (m.afterCalls calls).2 = List.range (m.afterCalls calls).1.types.length := by
  induction calls generalizing m with
  | nil => exact ⟨hm, List.append_nil _⟩
  | cons c calls ih =>
    rw [arePossible, Bool.and_eq_true] at hcalls
    obtain ⟨hnext, hdeclared⟩ := hm.afterCall hcalls.1
    obtain ⟨hlast, hrest⟩ := ih hnext hcalls.2
    refine ⟨hlast, ?_⟩
    rw [Model.afterCalls]
    dsimp only
    rw [← List.append_assoc, hdeclared, hrest]

/-! ## Places and depths -/

/-- What a type is declared in. -/
def container? (m : Model) (id : TypeId) : Option Container :=
  (m.types[id]?).map WrapperType.container

/-- How many types are around a type. -/
def depth (m : Model) (id : TypeId) : Nat :=
  (m.enclosing id).length

section Places

variable {c : Container} {id outer : TypeId} {i : Nat}

lemma container?_eq_some : m.container? id = some c ↔ ∃ t, m.types[id]? = some t ∧ t.container = c :=
  Option.map_eq_some_iff

lemma lt_of_container? (h : m.container? id = some c) : id < m.types.length := by
  obtain ⟨t, ht, -⟩ := container?_eq_some.1 h
  exact lt_of_getElem? ht

lemma exists_container? (h : id < m.types.length) : ∃ c, m.container? id = some c :=
  ⟨_, container?_eq_some.2 ⟨_, List.getElem?_eq_getElem h, rfl⟩⟩

lemma outer?_of_inside (h : m.container? id = some (.inside outer)) : m.outer? id = some outer :=
  outer?_eq_some.2 (container?_eq_some.1 h)

lemma mem_children_ids : id ∈ (m.children c).map (·.1) ↔ m.container? id = some c := by
  rw [List.mem_map, container?_eq_some]
  constructor
  · rintro ⟨⟨id, t⟩, hchild, rfl⟩
    exact ⟨t, mem_children.1 hchild⟩
  · rintro ⟨t, hchild⟩
    exact ⟨(id, t), mem_children.2 hchild, rfl⟩

lemma depth_of_top (h : m.container? id = some (.top i)) : m.depth id = 0 := by
  have houter : m.outer? id = none := by
    unfold outer?
    rw [← container?, h]
  rw [depth, enclosing, houter]
  rfl

lemma Layered.depth_of_inside (hm : m.Layered) (h : m.container? id = some (.inside outer)) :
    m.depth id = m.depth outer + 1 := by
  have houter := outer?_of_inside h
  rw [depth, enclosing, houter]
  dsimp only
  rw [if_pos (hm houter), List.length_cons, depth]

/-- The types in one container have one depth. -/
lemma Layered.depth_congr (hm : m.Layered) {id' : TypeId} (h : m.container? id = some c)
    (h' : m.container? id' = some c) : m.depth id = m.depth id' := by
  cases c with
  | top i => rw [depth_of_top h, depth_of_top h']
  | inside outer => rw [hm.depth_of_inside h, hm.depth_of_inside h']

/-- No type lies deeper than there are types before it. -/
lemma Layered.depth_le (hm : m.Layered) (h : id < m.types.length) : m.depth id ≤ id := by
  induction id using Nat.strong_induction_on with
  | _ id ih =>
    obtain ⟨c, hc⟩ := exists_container? h
    cases c with
    | top i => exact (depth_of_top hc).trans_le (Nat.zero_le id)
    | inside outer =>
      have hlt : outer < id := hm (outer?_of_inside hc)
      rw [hm.depth_of_inside hc]
      exact (Nat.succ_le_succ (ih outer hlt (hlt.trans h))).trans hlt

/-- A type around another lies less deep. -/
lemma Layered.depth_lt (hm : m.Layered) (h : m.Encloses outer id) : m.depth outer < m.depth id := by
  have hdeeper {a b : TypeId} (houter : m.outer? b = some a) : m.depth a < m.depth b := by
    obtain ⟨t, ht, hc⟩ := outer?_eq_some.1 houter
    rw [hm.depth_of_inside (container?_eq_some.2 ⟨t, ht, hc⟩)]
    exact Nat.lt_succ_self _
  induction h with
  | single houter => exact hdeeper houter
  | tail _ houter ih => exact ih.trans (hdeeper houter)

end Places

/-! ## Levels -/

/-- The types of one depth. -/
def level (m : Model) (k : Nat) : List TypeId :=
  m.inner^[k] m.outermost

section Levels

variable {id : TypeId} {k : Nat}

lemma level_succ (m : Model) (k : Nat) : m.level (k + 1) = m.inner (m.level k) :=
  Function.iterate_succ_apply' _ _ _

lemma mem_inner {types : List TypeId} :
    id ∈ m.inner types ↔ ∃ outer ∈ types, m.container? id = some (.inside outer) := by
  simp only [inner, List.mem_flatMap, mem_children_ids]

lemma Housed.mem_outermost (hm : m.Housed) : id ∈ m.outermost ↔ ∃ i, m.container? id = some (.top i) := by
  simp only [outermost, List.mem_flatMap, List.mem_range, mem_children_ids]
  refine ⟨fun ⟨i, _, hc⟩ => ⟨i, hc⟩, fun ⟨i, hc⟩ => ⟨i, ?_, hc⟩⟩
  obtain ⟨t, ht, htop⟩ := container?_eq_some.1 hc
  exact hm.top t (List.mem_of_getElem? ht) i htop

/-- A level holds the types of its depth, all of them. -/
lemma Housed.mem_level (hm : m.Housed) : id ∈ m.level k ↔ id < m.types.length ∧ m.depth id = k := by
  induction k generalizing id with
  | zero =>
    rw [level, Function.iterate_zero_apply, hm.mem_outermost]
    constructor
    · rintro ⟨i, hc⟩
      exact ⟨lt_of_container? hc, depth_of_top hc⟩
    · rintro ⟨hlt, hdepth⟩
      obtain ⟨c, hc⟩ := exists_container? hlt
      cases c with
      | top i => exact ⟨i, hc⟩
      | inside outer =>
        rw [hm.layered.depth_of_inside hc] at hdepth
        cases hdepth
  | succ k ih =>
    rw [level_succ, mem_inner]
    constructor
    · rintro ⟨outer, houter, hc⟩
      rw [hm.layered.depth_of_inside hc, (ih.1 houter).2]
      exact ⟨lt_of_container? hc, rfl⟩
    · rintro ⟨hlt, hdepth⟩
      obtain ⟨c, hc⟩ := exists_container? hlt
      cases c with
      | top i =>
        rw [depth_of_top hc] at hdepth
        cases hdepth
      | inside outer =>
        rw [hm.layered.depth_of_inside hc] at hdepth
        have hbefore : outer < id := hm.layered (outer?_of_inside hc)
        exact ⟨outer, ih.2 ⟨hbefore.trans hlt, Nat.succ.inj hdepth⟩, hc⟩

/-- One type was declared before another if both are in one container. -/
def InOrder (m : Model) (i j : TypeId) : Prop :=
  m.container? i = m.container? j → i < j

lemma nodup_of_inOrder {types : List TypeId} (h : types.Pairwise m.InOrder) : types.Nodup := by
  refine h.imp fun {i j} hij heq => ?_
  subst heq
  exact Nat.lt_irrefl i (hij rfl)

/-- What is in different containers is not compared, so the types in one after another are in order. -/
lemma pairwise_inOrder_flatMap {containers : List Container} (h : containers.Nodup) :
    (containers.flatMap fun c => (m.children c).map (·.1)).Pairwise m.InOrder := by
  rw [List.pairwise_flatMap]
  constructor
  · intro c _
    refine (m.pairwise_lt_children c).imp fun {i j} hlt => ?_
    exact fun _ => hlt
  · refine h.imp fun {c d} hne i hi j hj hsame => ?_
    rw [mem_children_ids.1 hi, mem_children_ids.1 hj] at hsame
    exact (hne (Option.some.inj hsame)).elim

lemma pairwise_inOrder_level (m : Model) (k : Nat) : (m.level k).Pairwise m.InOrder := by
  induction k with
  | zero =>
    have houtermost : m.level 0 = ((List.range m.namespaces.length).map Container.top).flatMap
        fun c => (m.children c).map (·.1) := by
      rw [List.flatMap_map]
      rfl
    rw [houtermost]
    exact pairwise_inOrder_flatMap (List.nodup_range.map fun _ _ => Container.top.inj)
  | succ k ih =>
    have hinner : m.level (k + 1) = ((m.level k).map Container.inside).flatMap
        fun c => (m.children c).map (·.1) := by
      rw [List.flatMap_map, level_succ]
      rfl
    rw [hinner]
    exact pairwise_inOrder_flatMap ((nodup_of_inOrder ih).map fun _ _ => Container.inside.inj)

end Levels

/-! ## All types -/

section All

variable {id : TypeId}

lemma levelsFrom_nil (m : Model) (fuel : Nat) : m.levelsFrom fuel [] = [] := by
  cases fuel <;> rfl

/-- Nothing is inside an empty level, so it need not be told from others. -/
lemma levelsFrom_succ (m : Model) (fuel : Nat) (types : List TypeId) :
    m.levelsFrom (fuel + 1) types = types ++ m.levelsFrom fuel (m.inner types) := by
  cases types with
  | nil => exact (m.levelsFrom_nil fuel).symm
  | cons id types => rfl

lemma levelsFrom_level (m : Model) (fuel k : Nat) :
    m.levelsFrom fuel (m.level k) = (List.range' k fuel).flatMap m.level := by
  induction fuel generalizing k with
  | zero => rfl
  | succ fuel ih => rw [levelsFrom_succ, ← level_succ, ih, List.range'_succ, List.flatMap_cons]

lemma allTypes_eq_flatMap (m : Model) : m.allTypes = (List.range m.types.length).flatMap m.level := by
  rw [List.range_eq_range']
  exact m.levelsFrom_level _ 0

lemma Housed.mem_allTypes (hm : m.Housed) : id ∈ m.allTypes ↔ id < m.types.length := by
  simp only [allTypes_eq_flatMap, List.mem_flatMap, List.mem_range, hm.mem_level]
  constructor
  · rintro ⟨k, -, hlt, -⟩
    exact hlt
  · intro hlt
    exact ⟨m.depth id, (hm.layered.depth_le hlt).trans_lt hlt, hlt, rfl⟩

/-- What is listed first lies no deeper, and was declared first if it is in the same container. -/
lemma Housed.pairwise_allTypes (hm : m.Housed) :
    m.allTypes.Pairwise fun i j => m.depth i ≤ m.depth j ∧ m.InOrder i j := by
  rw [allTypes_eq_flatMap, List.pairwise_flatMap]
  constructor
  · intro k _
    refine (m.pairwise_inOrder_level k).imp_of_mem fun {i j} hi hj hij => ⟨?_, hij⟩
    rw [(hm.mem_level.1 hi).2, (hm.mem_level.1 hj).2]
  · refine List.pairwise_lt_range.imp fun {k l} hkl i hi j hj => ?_
    obtain ⟨hilt, rfl⟩ := hm.mem_level.1 hi
    obtain ⟨-, rfl⟩ := hm.mem_level.1 hj
    refine ⟨hkl.le, fun hsame => ?_⟩
    obtain ⟨c, hc⟩ := exists_container? hilt
    exact (hkl.ne (hm.layered.depth_congr hc (hsame.symm.trans hc))).elim

lemma Housed.nodup_allTypes (hm : m.Housed) : m.allTypes.Nodup :=
  nodup_of_inOrder (hm.pairwise_allTypes.imp And.right)

lemma Housed.perm_allTypes (hm : m.Housed) : m.allTypes.Perm (List.range m.types.length) := by
  rw [List.perm_ext_iff_of_nodup hm.nodup_allTypes List.nodup_range]
  intro id
  rw [hm.mem_allTypes, List.mem_range]

/-- A list of types holds each declared type once, none before a type around it, by depth, and those of one container in
the order in which they were declared. -/
structure Lists (m : Model) (declared listed : List TypeId) : Prop where
  once : listed.Perm declared
  nodup : listed.Nodup
  behind : listed.Pairwise fun i j => ¬ m.Encloses j i
  byDepth : listed.Pairwise fun i j => m.depth i ≤ m.depth j
  inOrder : ∀ c, listed.filter (m.container? · = some c) = declared.filter (m.container? · = some c)

lemma Housed.lists_allTypes (hm : m.Housed) : m.Lists (List.range m.types.length) m.allTypes where
  once := hm.perm_allTypes
  nodup := hm.nodup_allTypes
  behind := hm.pairwise_allTypes.imp fun {i j} hij hencloses => by
    have hdeeper : m.depth j < m.depth i := hm.layered.depth_lt hencloses
    exact hdeeper.not_ge hij.1
  byDepth := hm.pairwise_allTypes.imp And.left
  inOrder c := by
    have hlisted : (m.allTypes.filter (m.container? · = some c)).Pairwise (· < ·) := by
      refine (hm.pairwise_allTypes.sublist List.filter_sublist).imp_of_mem fun {i j} hi hj hij => ?_
      have hci := of_decide_eq_true (List.mem_filter.1 hi).2
      have hcj := of_decide_eq_true (List.mem_filter.1 hj).2
      exact hij.2 (hci.trans hcj.symm)
    exact List.Perm.eq_of_pairwise' hlisted (List.pairwise_lt_range.filter _) (hm.perm_allTypes.filter _)

end All

/-! ## Rounds -/

/-- Types that wait to be listed, and those that are listed. -/
structure Queue where
  waiting : List TypeId
  listed : List TypeId

/-- The types in namespaces wait at first. -/
def queue (m : Model) : Queue :=
  ⟨m.outermost, []⟩

/-- In a round the type that waited longest is listed, and the types inside it wait behind the others. Where none waits,
nothing is left to do. -/
def Queue.advance (m : Model) (q : Queue) : Queue :=
  match q.waiting with
  | [] => q
  | id :: rest => ⟨rest ++ (m.children (.inside id)).map (·.1), q.listed ++ [id]⟩

section Rounds

variable {q : Queue}

lemma Queue.iterate_advance_of_waiting_eq_nil (h : q.waiting = []) (rounds : Nat) : (advance m)^[rounds] q = q := by
  have hidle : q.advance m = q := by rw [advance, h]
  exact Function.iterate_fixed hidle rounds

lemma Queue.length_listed_advance (m : Model) (q : Queue) : (q.advance m).listed.length ≤ q.listed.length + 1 := by
  unfold advance
  split
  · exact Nat.le_succ _
  · exact (List.length_append).le

lemma Queue.length_listed_iterate (m : Model) (q : Queue) (rounds : Nat) :
    ((advance m)^[rounds] q).listed.length ≤ q.listed.length + rounds := by
  induction rounds with
  | zero => exact le_rfl
  | succ rounds ih =>
    rw [Function.iterate_succ_apply']
    exact (length_listed_advance m _).trans (Nat.succ_le_succ ih)

/-- While some types are listed, those inside them come to wait behind what waits already. -/
lemma Queue.iterate_advance (m : Model) (types rest listed : List TypeId) :
    (advance m)^[types.length] ⟨types ++ rest, listed⟩ = ⟨rest ++ m.inner types, listed ++ types⟩ := by
  induction types generalizing rest listed with
  | nil => simp [inner]
  | cons id types ih =>
    have hround : advance m ⟨id :: types ++ rest, listed⟩ =
        ⟨types ++ (rest ++ (m.children (.inside id)).map (·.1)), listed ++ [id]⟩ := by
      rw [← List.append_assoc]
      rfl
    rw [List.length_cons, Function.iterate_succ_apply, hround, ih, List.append_assoc, List.append_assoc]
    rfl

/-- Level after level is listed, each when the one before is. -/
lemma Queue.iterate_advance_levelsFrom (m : Model) (fuel : Nat) (types listed : List TypeId) :
    (advance m)^[(m.levelsFrom fuel types).length] ⟨types, listed⟩ =
      ⟨m.inner^[fuel] types, listed ++ m.levelsFrom fuel types⟩ := by
  induction fuel generalizing types listed with
  | zero => simp [levelsFrom]
  | succ fuel ih =>
    have hlevel := iterate_advance m types [] listed
    rw [List.append_nil, List.nil_append] at hlevel
    rw [levelsFrom_succ, List.length_append, Nat.add_comm, Function.iterate_add_apply, hlevel, ih, List.append_assoc,
      Function.iterate_succ_apply]

/-- Everything is listed when there were as many rounds as there are types. -/
lemma Housed.iterate_advance_queue (hm : m.Housed) :
    (Queue.advance m)^[m.types.length] m.queue = ⟨[], m.allTypes⟩ := by
  have hbelow : m.level m.types.length = [] := by
    rw [List.eq_nil_iff_forall_not_mem]
    intro id hid
    obtain ⟨hlt, hdepth⟩ := hm.mem_level.1 hid
    exact (hm.layered.depth_le hlt).not_gt (hlt.trans_eq hdepth.symm)
  have hrounds : m.allTypes.length = m.types.length := hm.perm_allTypes.length_eq.trans List.length_range
  have hall := Queue.iterate_advance_levelsFrom m m.types.length m.outermost []
  rw [← level, hbelow, ← allTypes, hrounds] at hall
  exact hall

/-- The rounds end, and not before each type had one. -/
lemma Housed.waiting_eq_nil_iff (hm : m.Housed) (rounds : Nat) :
    ((Queue.advance m)^[rounds] m.queue).waiting = [] ↔ m.types.length ≤ rounds := by
  constructor
  · intro hdone
    by_contra hearly
    -- Nothing happens after these rounds, so they listed all types, one in each at most.
    have hidle := Queue.iterate_advance_of_waiting_eq_nil (m := m) hdone (m.types.length - rounds)
    rw [← Function.iterate_add_apply, Nat.sub_add_cancel (Nat.le_of_not_le hearly), hm.iterate_advance_queue] at hidle
    have hlisted := Queue.length_listed_iterate m m.queue rounds
    rw [← hidle, hm.perm_allTypes.length_eq, List.length_range] at hlisted
    exact hearly (hlisted.trans_eq (Nat.zero_add rounds))
  · intro hle
    rw [← Nat.sub_add_cancel hle, Function.iterate_add_apply, hm.iterate_advance_queue,
      Queue.iterate_advance_of_waiting_eq_nil rfl]

end Rounds

/-- After any calls, listing takes one round for each type that was declared, and lists these types. -/
theorem allTypes_afterCalls (reservedTypes reservedMembers : List String) (calls : List Call)
    (hcalls : (empty reservedTypes reservedMembers).arePossible calls = true) :
    let (m, declared) := (empty reservedTypes reservedMembers).afterCalls calls
    (∀ rounds, ((Queue.advance m)^[rounds] m.queue).waiting = [] ↔ declared.length ≤ rounds) ∧
      (Queue.advance m)^[declared.length] m.queue = ⟨[], m.allTypes⟩ ∧ m.Lists declared m.allTypes := by
  obtain ⟨hm, hdeclared⟩ := (housed_empty reservedTypes reservedMembers).afterCalls hcalls
  generalize (empty reservedTypes reservedMembers).afterCalls calls = reached at hm hdeclared
  obtain ⟨m, declared⟩ := reached
  obtain rfl : declared = List.range m.types.length := hdeclared
  simp only [List.length_range]
  exact ⟨hm.waiting_eq_nil_iff, hm.iterate_advance_queue, hm.lists_allTypes⟩

/-- Calls that declare types in two namespaces, in turns, and ask for one that is there. -/
def turns : List Call :=
  [.withNamespace "first", .withNamespace "second", .declare (.top 0) "Outer" "", .declare (.inside 0) "Inner" "",
    .declare (.top 1) "Outer" "", .declare (.inside 1) "Innermost" "", .declare (.inside 2) "Inner" "",
    .declare (.inside 0) "Inner" "", .withNamespace "first", .declare (.inside 0) "Last" ""]

/-- The call for a name that is there declares nothing. The types inside one type are listed together, though another
was declared in between, and the deepest type is listed last. -/
theorem allTypes_afterCalls_of_turns :
    (empty [] []).arePossible turns = true ∧ ((empty [] []).afterCalls turns).2 = [0, 1, 2, 3, 4, 5] ∧
      ((empty [] []).afterCalls turns).1.allTypes = [0, 2, 1, 5, 4, 3] ∧
      ((empty [] []).afterCalls turns).1.Lists [0, 1, 2, 3, 4, 5] [0, 2, 1, 5, 4, 3] := by
  have hpossible : (empty [] []).arePossible turns = true := by decide +kernel
  have hdeclared : ((empty [] []).afterCalls turns).2 = [0, 1, 2, 3, 4, 5] := by decide +kernel
  have hall : ((empty [] []).afterCalls turns).1.allTypes = [0, 2, 1, 5, 4, 3] := by decide +kernel
  obtain ⟨-, -, hlists⟩ := allTypes_afterCalls [] [] turns hpossible
  refine ⟨hpossible, hdeclared, hall, ?_⟩
  rw [← hdeclared, ← hall]
  exact hlists

end Model

end SchemaAccessors
