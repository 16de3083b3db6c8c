import SchemaAccessors.Proofs.Coverage
import SchemaAccessors.Proofs.Failing
import SchemaAccessors.Proofs.TypeNames

/-!
# Calls that are repeated

Whoever has a pass may ask for drafts in any order, and more than once. A draft stays under its URI for good, and
what a call has brought about stays as well: the draft that it gave is there, and has been filled if it was asked
for filled. So a call that is made once more finds everything done and changes nothing.
-/

namespace SchemaAccessors

namespace Drafting

/-! ## The registry only grows -/

section Growth

variable {s : Setting} {d d' : Drafting}

lemma Step.registry_extends (h : Step s d d') : d.registry <+: d'.registry := by
  cases h with
  | create fresh => exact List.prefix_append _ _
  | _ => exact List.prefix_refl _

lemma Steps.registry_extends (h : Steps s d d') : d.registry <+: d'.registry := by
  induction h with
  | refl => exact List.prefix_refl _
  | tail _ step ih => exact ih.trans step.registry_extends

/-- A draft is what is registered under the URI of its node. -/
lemma Sound.lookup_eq (h : d.Sound) {id : DraftId} {x : Draft} (hx : d.drafts[id]? = some x) :
    d.registry.lookup x.node.uri = some (some id) := by
  cases hl : d.registry.lookup x.node.uri with
  | none =>
    have hmem : x.node.uri ∈ d.uris := List.mem_map.2 ⟨x, List.mem_of_getElem? hx, rfl⟩
    exact absurd hmem (h.lookup_eq_none.1 hl)
  | some id? =>
    obtain ⟨id', y, rfl, hy, huri⟩ := h.of_lookup hl
    rw [h.eq_of_uri hy hx huri]

end Growth

/-! ## What calls bring about -/

/-- The node that a call asks for. -/
def Call.node? : Call → Option SchemaNode
  | .complete n => some n
  | .declare n => some n
  | .finish => none

/-- The draft that a call gives. -/
def Call.answer (s : Setting) : Call → DraftM (Option DraftId)
  | .complete n => do return some (← Drafting.complete s n)
  | .declare n => do return some (← Drafting.declare s n)
  | .finish => do
    Drafting.finish s
    return none

/-- What a call that gave an answer leaves for good: a draft under the URI of the node, which is started if it was
asked for filled. -/
def Answered (d : Drafting) : Call → Option DraftId → Prop
  | .complete n, id? => ∃ id x, id? = some id ∧ d.drafts[id]? = some x ∧ x.node.uri = n.uri ∧ x.started = true
  | .declare n, id? => ∃ id x, id? = some id ∧ d.drafts[id]? = some x ∧ x.node.uri = n.uri
  | .finish, id? => id? = none

section Calls

variable {s : Setting} {n : SchemaNode} {c : Call} {id? : Option DraftId} {d d' : Drafting}

lemma leads_answer (s : Setting) (c : Call) : Leads s (c.answer s) := by
  cases c with
  | complete n => exact (leads_complete n).bind fun _ => leads_pure _
  | declare n => exact (leads_declare s n).bind fun _ => leads_pure _
  | finish => exact leads_finish.bind fun _ => leads_pure _

lemma Answered.mono (h : d.Answered c id?) (hkeeps : d.KeepsNodes d') : d'.Answered c id? := by
  cases c with
  | complete n =>
    obtain ⟨id, x, hid, hx, huri, hstarted⟩ := h
    obtain ⟨y, hy, hnode, hstarts⟩ := hkeeps hx
    exact ⟨id, y, hid, hy, hnode ▸ huri, hstarts hstarted⟩
  | declare n =>
    obtain ⟨id, x, hid, hx, huri⟩ := h
    obtain ⟨y, hy, hnode, -⟩ := hkeeps hx
    exact ⟨id, y, hid, hy, hnode ▸ huri⟩
  | finish => exact h

/-- A call for a node gives what is registered under its URI. -/
lemma Answered.lookup_eq (h : d.Answered c id?) (hd : d.Sound) (hn : c.node? = some n) :
    id?.isSome ∧ d.registry.lookup n.uri = some id? := by
  cases c with
  | complete m =>
    obtain rfl : m = n := Option.some.inj hn
    obtain ⟨id, x, rfl, hx, huri, -⟩ := h
    exact ⟨rfl, huri ▸ hd.lookup_eq hx⟩
  | declare m =>
    obtain rfl : m = n := Option.some.inj hn
    obtain ⟨id, x, rfl, hx, huri⟩ := h
    exact ⟨rfl, huri ▸ hd.lookup_eq hx⟩
  | finish => cases hn

lemma answered_of_answer (hd : d.Sound) (h : outcome (c.answer s) d = (.ok id?, d')) : d'.Answered c id? := by
  cases c with
  | complete n =>
    obtain ⟨id, e, hcomplete, hlast⟩ := outcome_bind_eq_ok h
    obtain ⟨rfl, rfl⟩ : some id = id? ∧ e = d' := by
      simpa using hlast
    obtain ⟨id', e₁, hdeclare, hrest⟩ := outcome_bind_eq_ok hcomplete
    rw [outcome_bind_of_ok (outcome_bound e₁)] at hrest
    obtain ⟨⟨⟩, e₂, hfill, hlast⟩ := outcome_bind_eq_ok hrest
    obtain ⟨rfl, rfl⟩ : id' = id ∧ e₂ = e := by
      simpa using hlast
    obtain ⟨x, hx, huri⟩ := exists_of_declare hd hdeclare
    obtain ⟨y, hy, hnode, -⟩ := ((leads_fill _ _).steps hfill).keepsNodes hx
    obtain ⟨z, hz, hstarted⟩ := started_of_fill hfill
    obtain rfl : y = z := Option.some.inj (hy.symm.trans hz)
    exact ⟨id', y, rfl, hy, hnode ▸ huri, hstarted⟩
  | declare n =>
    obtain ⟨id, e, hdeclare, hlast⟩ := outcome_bind_eq_ok h
    obtain ⟨rfl, rfl⟩ : some id = id? ∧ e = d' := by
      simpa using hlast
    obtain ⟨x, hx, huri⟩ := exists_of_declare hd hdeclare
    exact ⟨id, x, rfl, hx, huri⟩
  | finish =>
    obtain ⟨⟨⟩, e, -, hlast⟩ := outcome_bind_eq_ok h
    exact (Except.ok.inj (Prod.mk.inj hlast).1).symm

/-- Every call of a run has left what it gave an answer for. -/
lemma answered_of_calls {calls : List Call} {answers : List (Option DraftId)} (hd : d.Sound)
    (h : outcome (calls.mapM (Call.answer s)) d = (.ok answers, d')) :
    List.Forall₂ d'.Answered calls answers := by
  refine (outcome_mapM_eq_ok (R := Steps s) (fun _ => .refl) .trans (fun c d => leads_answer s c d) h).imp ?_
  rintro c id? ⟨e, e', hbefore, hanswer, hafter⟩
  exact (answered_of_answer (hbefore.sound hd) hanswer).mono hafter.keepsNodes

/-! ## Calls made once more -/

/-- Filling a draft that is started does nothing. -/
lemma outcome_fill_of_started {id : DraftId} {x : Draft} (hx : d.drafts[id]? = some x) (hstarted : x.started = true)
    (fuel : Nat) : outcome (fill s (fuel + 1) id) d = (.ok ⟨⟩, d) := by
  rw [fill_succ, outcome_bind_of_ok (outcome_draft_of_some d hx), if_pos hstarted]
  rfl

lemma outcome_declare_of_found {id : DraftId} (h : d.registry.lookup n.uri = some (some id)) :
    outcome (declare s n) d = (.ok id, d) := by
  rw [declare_eq]
  exact outcome_declareIn_of_found h

/-- A call that has been answered gives its answer again, and changes nothing. -/
lemma outcome_answer_of_answered (hd : d.Sound) (hn : c.node? = some n) (h : d.Answered c id?) :
    outcome (c.answer s) d = (.ok id?, d) := by
  cases c with
  | complete m =>
    obtain ⟨id, x, rfl, hx, huri, hstarted⟩ := h
    have hdeclare := outcome_declare_of_found (s := s) (huri ▸ hd.lookup_eq hx)
    have hcomplete : outcome (complete s m) d = (.ok id, d) := by
      unfold complete
      rw [outcome_bind_of_ok hdeclare, outcome_bind_of_ok (outcome_bound d),
        outcome_bind_of_ok (outcome_fill_of_started hx hstarted _)]
      rfl
    exact outcome_bind_of_ok hcomplete
  | declare m =>
    obtain ⟨id, x, rfl, hx, huri⟩ := h
    exact outcome_bind_of_ok (outcome_declare_of_found (huri ▸ hd.lookup_eq hx))
  | finish => cases hn

/-- Where every draft is started, nothing is left to finish. -/
lemma outcome_finish_of_started (hd : d.Sound) (h : ∀ x ∈ d.drafts, x.started = true) :
    outcome (finish s) d = (.ok ⟨⟩, d) := by
  have hwaiting : d.waiting = [] := by
    refine List.eq_nil_iff_forall_not_mem.2 fun id hid => ?_
    obtain ⟨x, hx, hunstarted⟩ := mem_waiting.1 hid
    rw [h x (List.mem_of_getElem? hx)] at hunstarted
    cases hunstarted
  unfold finish
  rw [outcome_bind_of_ok (outcome_bound d), finishIn_succ, outcome_bind_of_ok (outcome_pending hd), hwaiting]
  rfl

lemma started_of_finish (hd : d.Sound) (h : outcome (finish s) d = (.ok ⟨⟩, d')) :
    ∀ x ∈ d'.drafts, x.started = true := by
  unfold finish at h
  rw [outcome_bind_of_ok (outcome_bound d)] at h
  exact started_of_finishIn hd h

end Calls

/-- After calls that all succeed, the calls for nodes of one URI have given one draft, the one that is registered
under it. Whatever was registered between two calls is registered still. A call for a node that is made once more
gives its answer again, and the state behind it, with its registry, its model and its trace, is the state before;
so it is with finishing after finishing. -/
theorem repeated_calls {s : Setting} {store : Store} {model : Model} {calls : List Call}
    {answers : List (Option DraftId)} {d : Drafting}
    (hcalls : outcome (calls.mapM (Call.answer s)) (start store model) = (.ok answers, d)) :
    answers.length = calls.length ∧
      (∀ p ∈ calls.zip answers, ∀ n, p.1.node? = some n → p.2.isSome ∧ d.registry.lookup n.uri = some p.2) ∧
      (∀ p ∈ calls.zip answers, ∀ q ∈ calls.zip answers, ∀ n m, p.1.node? = some n → q.1.node? = some m →
        n.uri = m.uri → p.2 = q.2) ∧
      (∀ first rest, calls = first ++ rest → ∃ given e,
        outcome (first.mapM (Call.answer s)) (start store model) = (.ok given, e) ∧ given <+: answers ∧
          e.registry <+: d.registry) ∧
      (∀ p ∈ calls.zip answers, ∀ n, p.1.node? = some n → outcome (p.1.answer s) d = (.ok p.2, d)) ∧
      (calls.getLast? = some .finish → outcome (Call.finish.answer s) d = (.ok none, d)) := by
  have hstart := sound_start store model
  have hleads : Leads s (calls.mapM (Call.answer s)) := leads_mapM (leads_answer s) calls
  have hsound : d.Sound := (hleads.steps hcalls).sound hstart
  have hanswered := answered_of_calls hstart hcalls
  have hlookup : ∀ p ∈ calls.zip answers, ∀ n, p.1.node? = some n →
      p.2.isSome ∧ d.registry.lookup n.uri = some p.2 := fun p hp n hn =>
    (List.forall₂_zip hanswered hp).lookup_eq hsound hn
  refine ⟨hanswered.length_eq.symm, hlookup, fun p hp q hq n m hn hm huri => ?_, fun first rest hsplit => ?_,
    fun p hp n hn => ?_, fun hlast => ?_⟩
  · have hsame := (hlookup p hp n hn).2
    rw [huri, (hlookup q hq m hm).2] at hsame
    exact (Option.some.inj hsame).symm
  · rw [hsplit, List.mapM_append] at hcalls
    obtain ⟨given, e, hfirst, hrest⟩ := outcome_bind_eq_ok hcalls
    obtain ⟨more, e', hmore, hlast⟩ := outcome_bind_eq_ok hrest
    obtain ⟨rfl, rfl⟩ : given ++ more = answers ∧ e' = d := by
      simpa using hlast
    refine ⟨given, e, hfirst, List.prefix_append _ _, ?_⟩
    exact ((leads_mapM (leads_answer s) rest).steps hmore).registry_extends
  · exact outcome_answer_of_answered hsound hn (List.forall₂_zip hanswered hp)
  · obtain ⟨first, rfl⟩ := List.getLast?_eq_some_iff.1 hlast
    rw [List.mapM_append] at hcalls
    obtain ⟨given, e, hfirst, hrest⟩ := outcome_bind_eq_ok hcalls
    obtain ⟨more, e', hmore, hend⟩ := outcome_bind_eq_ok hrest
    obtain rfl : e' = d := congrArg Prod.snd hend
    rw [List.mapM_cons] at hmore
    obtain ⟨none?, e₁, hfinish, hnothing⟩ := outcome_bind_eq_ok hmore
    obtain rfl : e₁ = e' := congrArg Prod.snd hnothing
    obtain ⟨⟨⟩, e₂, hfinished, hlast'⟩ := outcome_bind_eq_ok hfinish
    obtain rfl : e₂ = e₁ := congrArg Prod.snd hlast'
    have hbefore : e.Sound := ((leads_mapM (leads_answer s) first).steps hfirst).sound hstart
    exact outcome_bind_of_ok (outcome_finish_of_started hsound (started_of_finish hbefore hfinished))

namespace Sample

/-- The property of the root that has a draft and no type. -/
def flag : SchemaNode :=
  .inside root ⟨"s", ["properties", "flag"], "s#/properties/flag", "s",
    [("type", .str "boolean"), ("default", .bool true)]⟩

def calls : List Call :=
  [.declare flag, .complete root, .declare root, .finish, .complete flag, .finish]

/-- The state behind the calls. -/
def asked : Drafting :=
  (outcome (calls.mapM (Call.answer setting)) (start store model)).2

end Sample

/-- The root is asked for filled and then declared, and the property before and after it is met from the root. -/
theorem repeated_calls_of_two_documents :
    ∃ answers, outcome (Sample.calls.mapM (Call.answer Sample.setting)) (start Sample.store Sample.model) =
        (.ok answers, Sample.asked) ∧ answers = [some 0, some 1, some 1, none, some 0, none] ∧
      (∀ p ∈ Sample.calls.zip answers, ∀ n, p.1.node? = some n →
        outcome (p.1.answer Sample.setting) Sample.asked = (.ok p.2, Sample.asked)) ∧
      outcome (Call.finish.answer Sample.setting) Sample.asked = (.ok none, Sample.asked) := by
  obtain ⟨answers, hcalls, hgiven⟩ := exists_of_map_toOption (f := fun given : List (Option DraftId) => given)
    (x := Sample.calls.mapM (Call.answer Sample.setting)) (s := start Sample.store Sample.model)
    (b := [some 0, some 1, some 1, none, some 0, none]) (by decide +kernel)
  change outcome _ _ = (.ok answers, Sample.asked) at hcalls
  obtain ⟨-, -, -, -, hagain, hfinish⟩ := repeated_calls hcalls
  exact ⟨answers, hcalls, hgiven, hagain, hfinish rfl⟩

end Drafting

end SchemaAccessors
