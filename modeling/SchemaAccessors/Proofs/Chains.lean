import SchemaAccessors.Proofs.Bounds

/-!
# Chains of references

The reference of a node leads to an entry, which may be a node with a reference again. `Chain` is that relation,
with everything that resolving brings into the store on the way, and it knows of no bound and of no URIs that were
seen. An entry stands for the end of its chain: following goes along the chain one resolution at a time, and where
no two nodes have one URI, it meets a URI again exactly where the chain comes back to a node.
-/

namespace SchemaAccessors

namespace Store

/-- The chain of an entry: where its reference leads, where the reference found there leads, and so on. The list
has the nodes that were passed, the last one first, and the store is the one that resolving left. -/
inductive Chain (loader : Loader) (s : Store) (first : Entry) : List SchemaNode → Store → Entry → Prop
  | start : Chain loader s first [] s first
  | next {passed : List SchemaNode} {t u : Store} {n : SchemaNode} {ref target : String} {e : Entry}
      (behind : Chain loader s first passed t (.node n)) (refers : n.ref? = some ref)
      (joined : Uri.join n.base ref = .ok target) (resolved : outcome (resolve loader target) t = (.ok e, u)) :
      Chain loader s first (n :: passed) u e

/-- How a chain ends, before it passes a node twice: with an entry that refers to nothing, at a node that it has
passed, or at a reference that cannot be joined or resolved. -/
inductive Ending (loader : Loader) (s : Store) (first : Entry) : Except Failure Entry → Store → Prop
  | reached {passed : List SchemaNode} {t : Store} {e : Entry} (chain : Chain loader s first passed t e)
      (distinct : passed.Nodup) (last : ∀ n, e = .node n → n.ref? = none) : Ending loader s first (.ok e) t
  | returned {passed : List SchemaNode} {t : Store} {n : SchemaNode} {ref : String}
      (chain : Chain loader s first passed t (.node n)) (distinct : passed.Nodup) (refers : n.ref? = some ref)
      (again : n ∈ passed) : Ending loader s first (.error (.endless n.uri)) t
  | broken {passed : List SchemaNode} {t : Store} {n : SchemaNode} {ref : String} {fault : Uri.Fault}
      (chain : Chain loader s first passed t (.node n)) (distinct : (n :: passed).Nodup)
      (refers : n.ref? = some ref) (fails : Uri.join n.base ref = .error fault) :
      Ending loader s first (.error (.badUri fault)) t
  | lost {passed : List SchemaNode} {t u : Store} {n : SchemaNode} {ref target : String} {cause : Failure}
      (chain : Chain loader s first passed t (.node n)) (distinct : (n :: passed).Nodup)
      (refers : n.ref? = some ref) (joined : Uri.join n.base ref = .ok target)
      (fails : outcome (resolve loader target) t = (.error cause, u)) : Ending loader s first (.error cause) u

variable {loader : Loader} {s : Store} {first : Entry}

/-! ## One step of following -/

/-- An entry refers to nothing, or is a node with a reference. -/
lemma last_or_refers (e : Entry) :
    (∀ n, e = .node n → n.ref? = none) ∨ ∃ n ref, e = .node n ∧ n.ref? = some ref := by
  cases e with
  | plain value => exact .inl nofun
  | node n =>
    cases href : n.ref? with
    | none => exact .inl fun m hm => by rwa [← Entry.node.inj hm]
    | some ref => exact .inr ⟨n, ref, rfl, href⟩

lemma follow_of_last {fuel : Nat} {seen : List String} {e : Entry} (h : ∀ n, e = .node n → n.ref? = none) :
    follow loader fuel seen e = pure e := by
  cases e with
  | plain value => exact follow_plain loader fuel seen value
  | node n => exact follow_of_no_ref (h n rfl)

/-- A reference that was followed is not followed again. -/
lemma outcome_follow_again {fuel : Nat} {seen : List String} {n : SchemaNode} {ref : String}
    (href : n.ref? = some ref) (hseen : n.uri ∈ seen) :
    outcome (follow loader (fuel + 1) seen (.node n)) s = (.error (.endless n.uri), s) := by
  rw [follow_succ href, if_pos (List.contains_iff_mem.2 hseen), outcome_throw]

lemma outcome_follow_broken {fuel : Nat} {seen : List String} {n : SchemaNode} {ref : String} {fault : Uri.Fault}
    (href : n.ref? = some ref) (hnew : n.uri ∉ seen) (hjoin : Uri.join n.base ref = .error fault) :
    outcome (follow loader (fuel + 1) seen (.node n)) s = (.error (.badUri fault), s) := by
  rw [follow_succ href, if_neg (mt List.contains_iff_mem.1 hnew), hjoin]
  rfl

/-- A reference that was not followed is resolved, and what it leads to is followed on. -/
lemma outcome_follow_joined {fuel : Nat} {seen : List String} {n : SchemaNode} {ref target : String}
    (href : n.ref? = some ref) (hnew : n.uri ∉ seen) (hjoin : Uri.join n.base ref = .ok target) :
    outcome (follow loader (fuel + 1) seen (.node n)) s =
      outcome (resolve loader target >>= follow loader fuel (n.uri :: seen)) s := by
  rw [follow_succ href, if_neg (mt List.contains_iff_mem.1 hnew), hjoin]
  rfl

namespace Chain

variable {passed : List SchemaNode} {t : Store} {e : Entry}

/-! ## What a chain goes through -/

lemma reads (h : Chain loader s first passed t e) : Reads loader s t := by
  induction h with
  | start => exact .refl
  | next behind refers joined resolved ih => exact ih.trans (outcome_leads (reads_resolve _ _ _) resolved)

lemma holds (hfirst : s.Holds first) (h : Chain loader s first passed t e) : t.Holds e := by
  cases h with
  | start => exact hfirst
  | next behind refers joined resolved => exact (of_resolve_eq_ok resolved).1

/-- The nodes that a chain has passed are nodes of the store. -/
lemma passed_subset (hfirst : s.Holds first) (h : Chain loader s first passed t e) : passed ⊆ t.nodes := by
  induction h with
  | start => exact List.nil_subset _
  | next behind refers joined resolved ih =>
    have hreads := outcome_leads (reads_resolve _ _ _) resolved
    apply List.cons_subset.2
    exact ⟨hreads.nodes_subset (behind.holds hfirst).mem_nodes, List.Subset.trans ih hreads.nodes_subset⟩

/-- What a chain has passed refers to something. -/
lemma refers_of_mem (h : Chain loader s first passed t e) {n : SchemaNode} (hn : n ∈ passed) :
    ∃ ref, n.ref? = some ref := by
  induction h with
  | start => exact absurd hn List.not_mem_nil
  | next behind refers joined resolved ih =>
    rcases List.mem_cons.1 hn with rfl | hn
    · exact ⟨_, refers⟩
    · exact ih hn

/-- A chain that has passed a node twice has come back to a node before, for the first time. -/
lemma nodup_or_returned (h : Chain loader s first passed t e) :
    passed.Nodup ∨ ∃ passed t n, Chain loader s first passed t (.node n) ∧ passed.Nodup ∧ n ∈ passed := by
  induction h with
  | start => exact .inl List.nodup_nil
  | @next passed t u n ref target e behind refers joined resolved ih =>
    rcases ih with hdistinct | hreturned
    · by_cases hn : n ∈ passed
      · exact .inr ⟨passed, t, n, behind, hdistinct, hn⟩
      · exact .inl (List.nodup_cons.2 ⟨hn, hdistinct⟩)
    · exact .inr hreturned

section Apart

variable (hapart : ∀ n m, s.Foresees loader n → s.Foresees loader m → n.uri = m.uri → n = m)
  (hfirst : s.Holds first)

include hapart hfirst

/-- The URI of a node tells whether the chain has passed it. -/
lemma mem_passed_iff {n : SchemaNode} (h : Chain loader s first passed t (.node n)) :
    n.uri ∈ passed.map (·.uri) ↔ n ∈ passed := by
  refine ⟨fun hn => ?_, List.mem_map_of_mem⟩
  obtain ⟨m, hm, huri⟩ := List.mem_map.1 hn
  have hforeseen := h.reads.foresees_of_mem (h.passed_subset hfirst hm)
  obtain rfl := hapart m n hforeseen (h.reads.foresees_of_mem (h.holds hfirst).mem_nodes) huri
  exact hm

lemma nodup_map_uri_iff (h : Chain loader s first passed t e) : (passed.map (·.uri)).Nodup ↔ passed.Nodup := by
  refine ⟨List.Nodup.of_map _, List.Nodup.map_on fun n hn m hm huri => ?_⟩
  have hforeseen := fun k (hk : k ∈ passed) => h.reads.foresees_of_mem (h.passed_subset hfirst hk)
  exact hapart n m (hforeseen n hn) (hforeseen m hm) huri

end Apart

/-! ## Following goes along the chain -/

/-- From any stage of a chain, as long as no URI has come twice, following goes on as from its beginning. -/
lemma outcome_follow (h : Chain loader s first passed t e) (hdistinct : (passed.map (·.uri)).Nodup) (fuel : Nat) :
    outcome (follow loader (fuel + passed.length) [] first) s =
      outcome (follow loader fuel (passed.map (·.uri)) e) t := by
  induction h generalizing fuel with
  | start => rfl
  | @next passed t u n ref target e behind refers joined resolved ih =>
    obtain ⟨hnew, hrest⟩ := List.nodup_cons.1 hdistinct
    rw [List.length_cons, Nat.add_comm passed.length, ← Nat.add_assoc, ih hrest,
      outcome_follow_joined refers hnew joined, outcome_bind_of_ok resolved]
    rfl

/-- A chain without repetition passes fewer nodes than following is allowed to. -/
lemma length_lt_capacity (hfinite : {uri | ∃ document, loader.fetch uri = .ok document}.Finite)
    (hfirst : s.Holds first) (h : Chain loader s first passed t e) (hdistinct : (passed.map (·.uri)).Nodup) :
    passed.length < s.capacity loader := by
  have hfollowed : t.Followed (passed.map (·.uri)) := ⟨hdistinct, List.map_subset _ (h.passed_subset hfirst)⟩
  have hlength := hfollowed.length_le
  rw [List.length_map] at hlength
  exact hlength.trans_lt (h.reads.weight_lt_capacity hfinite)

end Chain

section Apart

variable (hapart : ∀ n m, s.Foresees loader n → s.Foresees loader m → n.uri = m.uri → n = m)
  (hfirst : s.Holds first)

include hapart hfirst

/-- What following comes to from a stage of a chain is how the chain ends, unless the bound is reached. -/
lemma Chain.ending_of_follow {passed : List SchemaNode} {t u : Store} {e : Entry} {fuel : Nat}
    {r : Except Failure Entry} (h : Chain loader s first passed t e) (hdistinct : passed.Nodup)
    (hfollow : outcome (follow loader fuel (passed.map (·.uri)) e) t = (r, u)) (hr : r ≠ .error .exhausted) :
    Ending loader s first r u := by
  induction fuel generalizing passed t e with
  | zero =>
    rcases last_or_refers e with hlast | ⟨n, ref, rfl, href⟩
    · rw [follow_of_last hlast, outcome_pure, Prod.mk.injEq] at hfollow
      obtain ⟨rfl, rfl⟩ := hfollow
      exact .reached h hdistinct hlast
    · rw [follow_zero href, outcome_throw, Prod.mk.injEq] at hfollow
      exact (hr hfollow.1.symm).elim
  | succ fuel ih =>
    rcases last_or_refers e with hlast | ⟨n, ref, rfl, href⟩
    · rw [follow_of_last hlast, outcome_pure, Prod.mk.injEq] at hfollow
      obtain ⟨rfl, rfl⟩ := hfollow
      exact .reached h hdistinct hlast
    · by_cases hn : n ∈ passed
      · have hseen := (h.mem_passed_iff hapart hfirst).2 hn
        rw [outcome_follow_again href hseen, Prod.mk.injEq] at hfollow
        obtain ⟨rfl, rfl⟩ := hfollow
        exact .returned h hdistinct href hn
      · have hnew := mt (h.mem_passed_iff hapart hfirst).1 hn
        have hmore : (n :: passed).Nodup := List.nodup_cons.2 ⟨hn, hdistinct⟩
        cases hjoin : Uri.join n.base ref with
        | error fault =>
          rw [outcome_follow_broken href hnew hjoin, Prod.mk.injEq] at hfollow
          obtain ⟨rfl, rfl⟩ := hfollow
          exact .broken h hmore href hjoin
        | ok target =>
          rw [outcome_follow_joined href hnew hjoin] at hfollow
          rcases hresolve : outcome (resolve loader target) t with ⟨cause | e, v⟩
          · rw [outcome_bind_of_error hresolve, Prod.mk.injEq] at hfollow
            obtain ⟨rfl, rfl⟩ := hfollow
            exact .lost h hmore href hjoin hresolve
          · rw [outcome_bind_of_ok hresolve] at hfollow
            exact ih (h.next href hjoin hresolve) hmore hfollow

variable (hfinite : {uri | ∃ document, loader.fetch uri = .ok document}.Finite)

include hfinite

/-- There is something left of the bound at each stage of a chain without repetition. -/
lemma Chain.outcome_deref {passed : List SchemaNode} {t : Store} {e : Entry}
    (h : Chain loader s first passed t e) (hdistinct : passed.Nodup) :
    ∃ fuel, outcome (deref loader first) s = outcome (follow loader (fuel + 1) (passed.map (·.uri)) e) t := by
  have huris := (h.nodup_map_uri_iff hapart hfirst).2 hdistinct
  obtain ⟨fuel, hfuel⟩ := Nat.exists_eq_add_of_lt (h.length_lt_capacity hfinite hfirst huris)
  refine ⟨fuel, ?_⟩
  rw [← h.outcome_follow huris, deref, outcome_bind_of_ok (outcome_get s)]
  congr 2
  omega

/-- What an entry stands for is how its chain ends. -/
theorem outcome_deref_eq_iff {r : Except Failure Entry} {t : Store} :
    outcome (deref loader first) s = (r, t) ↔ Ending loader s first r t := by
  constructor
  · intro h
    have hbound := deref_ne_exhausted hfinite hfirst
    rw [h] at hbound
    rw [deref, outcome_bind_of_ok (outcome_get s)] at h
    exact Chain.ending_of_follow hapart hfirst .start List.nodup_nil h hbound
  · intro h
    cases h with
    | reached chain distinct last =>
      obtain ⟨fuel, hfuel⟩ := chain.outcome_deref hapart hfirst hfinite distinct
      rw [hfuel, follow_of_last last, outcome_pure]
    | returned chain distinct refers again =>
      obtain ⟨fuel, hfuel⟩ := chain.outcome_deref hapart hfirst hfinite distinct
      rw [hfuel, outcome_follow_again refers ((chain.mem_passed_iff hapart hfirst).2 again)]
    | broken chain distinct refers fails =>
      obtain ⟨hnew, hpassed⟩ := List.nodup_cons.1 distinct
      obtain ⟨fuel, hfuel⟩ := chain.outcome_deref hapart hfirst hfinite hpassed
      rw [hfuel, outcome_follow_broken refers (mt (chain.mem_passed_iff hapart hfirst).1 hnew) fails]
    | lost chain distinct refers joined fails =>
      obtain ⟨hnew, hpassed⟩ := List.nodup_cons.1 distinct
      obtain ⟨fuel, hfuel⟩ := chain.outcome_deref hapart hfirst hfinite hpassed
      rw [hfuel, outcome_follow_joined refers (mt (chain.mem_passed_iff hapart hfirst).1 hnew) joined,
        outcome_bind_of_error fails]

/-- A cycle is reported exactly where the chain comes back to a node. -/
lemma deref_endless_iff :
    (∃ uri t, outcome (deref loader first) s = (.error (.endless uri), t)) ↔
      ∃ passed t n, Chain loader s first passed t (.node n) ∧ n ∈ passed := by
  constructor
  · rintro ⟨uri, t, h⟩
    cases (outcome_deref_eq_iff hapart hfirst hfinite).1 h with
    | returned chain distinct refers again => exact ⟨_, _, _, chain, again⟩
    | lost chain distinct refers joined fails =>
      exact (resolve_ne_error (e := .endless uri) rfl _ _ (congrArg Prod.fst fails)).elim
  · rintro ⟨passed, t, n, hchain, hn⟩
    obtain ⟨passed, t, n, hchain, hdistinct, hn⟩ :
        ∃ passed t n, Chain loader s first passed t (.node n) ∧ passed.Nodup ∧ n ∈ passed :=
      hchain.nodup_or_returned.elim (fun hdistinct => ⟨passed, t, n, hchain, hdistinct, hn⟩) id
    obtain ⟨ref, href⟩ := hchain.refers_of_mem hn
    exact ⟨n.uri, t, (outcome_deref_eq_iff hapart hfirst hfinite).2 (.returned hchain hdistinct href hn)⟩

/-- What an entry of a store stands for is found in a bounded number of steps: it is the end of the chain of the
entry and refers to nothing, a cycle is reported exactly where the chain comes back to a node, and nothing else
fails than to join or to resolve a reference on the chain. -/
theorem deref_ends_chain :
    (outcome (deref loader first) s).1 ≠ .error .exhausted ∧
      (∀ e t, outcome (deref loader first) s = (.ok e, t) ↔
        ∃ passed, Chain loader s first passed t e ∧ passed.Nodup ∧ ∀ n, e = .node n → n.ref? = none) ∧
      ((∃ uri t, outcome (deref loader first) s = (.error (.endless uri), t)) ↔
        ∃ passed t n, Chain loader s first passed t (.node n) ∧ n ∈ passed) ∧
      ∀ cause u, outcome (deref loader first) s = (.error cause, u) → (∀ uri, cause ≠ .endless uri) →
        ∃ passed t n ref, Chain loader s first passed t (.node n) ∧ n.ref? = some ref ∧
          ((∃ fault, Uri.join n.base ref = .error fault ∧ cause = .badUri fault ∧ u = t) ∨
            ∃ target, Uri.join n.base ref = .ok target ∧
              outcome (resolve loader target) t = (.error cause, u)) := by
  refine ⟨deref_ne_exhausted hfinite hfirst, fun e t => ?_, deref_endless_iff hapart hfirst hfinite,
    fun cause u h hcause => ?_⟩
  · rw [outcome_deref_eq_iff hapart hfirst hfinite]
    constructor
    · rintro ⟨chain, distinct, last⟩
      exact ⟨_, chain, distinct, last⟩
    · rintro ⟨passed, chain, distinct, last⟩
      exact .reached chain distinct last
  · cases (outcome_deref_eq_iff hapart hfirst hfinite).1 h with
    | returned => exact (hcause _ rfl).elim
    | broken chain distinct refers fails => exact ⟨_, _, _, _, chain, refers, .inl ⟨_, fails, rfl, rfl⟩⟩
    | lost chain distinct refers joined fails => exact ⟨_, _, _, _, chain, refers, .inr ⟨_, joined, fails⟩⟩

end Apart

/-- Whether identifiers are unambiguous in a finite family of documents can be computed. -/
lemma apart_of_nodup (hfinite : {uri | ∃ document, loader.fetch uri = .ok document}.Finite)
    (h : ((s.nodes ++ loader.documents.flatMap fun d => (survey (.root d.1) d.2).nodes).map (·.uri)).Nodup) :
    ∀ n m, s.Foresees loader n → s.Foresees loader m → n.uri = m.uri → n = m := by
  have hlisted : ∀ n, s.Foresees loader n →
      n ∈ s.nodes ++ loader.documents.flatMap fun d => (survey (.root d.1) d.2).nodes := by
    rintro n (hn | ⟨uri, members, -, hfetch, hn⟩)
    · exact List.mem_append_left _ hn
    · obtain ⟨before, after, hdocuments, -⟩ := List.lookup_eq_some_iff.1 (Loader.lookup_of_fetch hfinite hfetch)
      apply List.mem_append_right
      exact List.mem_flatMap.2 ⟨(uri, .obj members), by simp [hdocuments], hn⟩
  exact fun n m hn hm huri => List.inj_on_of_nodup_map h (hlisted n hn) (hlisted m hm) huri

end Store

/-! ### A chain through two documents -/

namespace ChainSample

def members : Members :=
  [("$ref", .str "t#/definitions/there"),
    ("definitions", .obj [("back", .obj [("$ref", .str "#/definitions/any")]), ("any", .bool true),
      ("loop", .obj [("$ref", .str "t#/definitions/around")])])]

def other : Json :=
  .obj [("definitions", .obj [("there", .obj [("$id", .str "u"), ("$ref", .str "s#/definitions/back")]),
    ("around", .obj [("$ref", .str "s#/definitions/loop")])])]

def loader : Loader :=
  ⟨[("t", other)], ⟨[]⟩, .top⟩

def store : Store :=
  ⟨[⟨"s", survey (.root "s") (.obj members)⟩]⟩

def root : SchemaNode :=
  .root ⟨"s", [], "s", "s", members⟩

lemma finite : {uri | ∃ document, loader.fetch uri = .ok document}.Finite :=
  Loader.finite_of_no_files rfl

lemma apart (n m : SchemaNode) (hn : store.Foresees loader n) (hm : store.Foresees loader m) :
    n.uri = m.uri → n = m :=
  Store.apart_of_nodup finite (by decide +kernel) n m hn hm

lemma holds_root : store.Holds (.node root) :=
  Store.holds_of_mem_nodes (Store.mem_nodes.2 ⟨_, List.mem_singleton_self _,
    node_mem_survey (show (Position.root "s").enter members = .ok (root, [("s", [])]) from rfl)⟩)

/-- Whether an entry is the boolean `true`, which the chain of the root arrives at. -/
def isTrue : Entry → Bool
  | .plain (.bool b) => b
  | _ => false

lemma arrives : ∃ t, outcome (Store.deref loader (.node root)) store = (.ok (.plain (.bool true)), t) := by
  obtain ⟨e, he, htrue⟩ : ∃ e, outcome (Store.deref loader (.node root)) store =
      (.ok e, (outcome (Store.deref loader (.node root)) store).2) ∧ isTrue e = true :=
    exists_of_map_toOption (by decide +kernel)
  obtain rfl : e = .plain (.bool true) := by
    unfold isTrue at htrue
    split at htrue
    · rw [htrue]
    · cases htrue
  exact ⟨_, he⟩

/-- Whether a cycle is reported. -/
def isEndless : Except Failure Entry → Bool
  | .error (.endless _) => true
  | _ => false

lemma eq_endless {r : Except Failure Entry} (h : isEndless r = true) : ∃ uri, r = .error (.endless uri) := by
  unfold isEndless at h
  split at h
  · exact ⟨_, rfl⟩
  · cases h

lemma returns : ∃ e, store.child? root ["definitions", "loop"] = some e ∧
    ∃ uri t, outcome (Store.deref loader e) store = (.error (.endless uri), t) := by
  obtain ⟨e, he, hendless⟩ := Option.map_eq_some_iff.1
    (show (store.child? root ["definitions", "loop"]).map
      (fun e => isEndless (outcome (Store.deref loader e) store).1) = some true by decide +kernel)
  obtain ⟨uri, huri⟩ := eq_endless hendless
  exact ⟨e, he, uri, _, Prod.ext huri rfl⟩

end ChainSample

/-- The chain of the root leads through the other document, which is loaded on the way, and ends in a boolean; that
of another schema comes back to it. -/
theorem deref_ends_chain_of_two_documents :
    (∃ passed t, Store.Chain ChainSample.loader ChainSample.store (.node ChainSample.root) passed t
      (.plain (.bool true)) ∧ passed.Nodup) ∧
    ∃ e passed t n, ChainSample.store.child? ChainSample.root ["definitions", "loop"] = some e ∧
      Store.Chain ChainSample.loader ChainSample.store e passed t (.node n) ∧ n ∈ passed := by
  constructor
  · obtain ⟨t, harrives⟩ := ChainSample.arrives
    obtain ⟨passed, hchain, hdistinct, -⟩ := ((Store.deref_ends_chain ChainSample.apart ChainSample.holds_root
      ChainSample.finite).2.1 _ t).1 harrives
    exact ⟨passed, t, hchain, hdistinct⟩
  · obtain ⟨e, he, hreturns⟩ := ChainSample.returns
    obtain ⟨passed, t, n, hchain, hn⟩ := (Store.deref_ends_chain ChainSample.apart (Store.holds_of_child? he)
      ChainSample.finite).2.2.1.1 hreturns
    exact ⟨e, passed, t, n, he, hchain, hn⟩

end SchemaAccessors
