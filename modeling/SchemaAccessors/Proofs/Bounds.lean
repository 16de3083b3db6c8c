import Mathlib.Data.Set.Finite.Basic
import SchemaAccessors.Proofs.Documents
import SchemaAccessors.Proofs.Keys

/-!
# Bounds on reading

A loader that answers for finitely many URIs answers with the documents that it was given, since a file that
could be read could be read under endlessly many URIs. Each document is read once at most, so there is a bound on
the nodes that a store can come to have, and with it on how many references are followed before one comes again.
The bounds that reading is given are large enough: it never fails for want of them.
-/

namespace SchemaAccessors

/-! ## What a loader answers with -/

namespace Uri

lemma overlook_replicate (k : Nat) (text : List Char) :
    overlook (List.replicate k ' ' ++ text) = overlook text := by
  induction k with
  | zero => rfl
  | succ k ih =>
    rw [List.replicate_succ, List.cons_append, ← ih, overlook, overlook,
      List.dropWhile_cons_of_pos (by decide)]

lemma parts_replicate (k : Nat) (scheme text : List Char) :
    parts scheme (List.replicate k ' ' ++ text) = parts scheme text := by
  unfold parts
  rw [overlook_replicate]

end Uri

namespace Loader

/-- A file is read where each step of the way to its document succeeds. -/
lemma readFile_eq_ok {l : Loader} {uri : String} {document : Decoded} :
    l.readFile uri = .ok document ↔ ∃ parts, Uri.parts [] uri.toList = .ok parts ∧
      parts.scheme = "file".toList ∧ ∃ path,
      (Files.Path.ofString (String.ofList (Uri.unescape parts.path))).passable = .ok path ∧ ∃ content,
      l.files.readFrom l.directory path = .ok content ∧ ∃ text,
      textOf content = .ok text ∧ Json.decode text = .ok document := by
  unfold readFile
  rw [bind_eq_ok]
  refine exists_congr fun parts => and_congr mapError_eq_ok ?_
  by_cases hscheme : parts.scheme = "file".toList
  · rw [if_neg (not_not.2 hscheme)]
    simp only [bind_eq_ok, mapError_eq_ok, hscheme, true_and]
  · rw [if_pos hscheme, bind_eq_ok]
    refine iff_of_false ?_ fun h => hscheme h.1
    rintro ⟨parts, hthrow, -⟩
    simp [throw, throwThe, MonadExceptOf.throw] at hthrow

/-- Whatever is fetched, no object in it has a key twice, if this holds for the documents that were given. -/
theorem keysApart_of_fetch {l : Loader} (hgiven : ∀ d ∈ l.documents, d.2.keysApart = true) {uri : String}
    {document : Json} (h : l.fetch uri = .ok document) : document.keysApart = true := by
  unfold fetch at h
  split at h
  · next found hfound =>
    obtain rfl := Except.ok.inj h
    obtain ⟨before, after, hdocuments, -⟩ := List.lookup_eq_some_iff.1 hfound
    exact hgiven (uri, found) (by simp [hdocuments])
  · obtain ⟨value, -, rfl⟩ := map_eq_ok.1 h
    exact value.keysApart_json

/-- Blanks in front of a URI make no difference to the file that it names. -/
lemma fetchFile_replicate {l : Loader} {uri : String} {document : Json} (h : l.fetchFile uri = .ok document)
    (k : Nat) : l.fetchFile (String.ofList (List.replicate k ' ' ++ uri.toList)) = .ok document := by
  obtain ⟨value, hread, hvalue⟩ := map_eq_ok.1 h
  refine map_eq_ok.2 ⟨value, ?_, hvalue⟩
  rw [readFile_eq_ok] at hread ⊢
  rwa [String.toList_ofList, Uri.parts_replicate]

/-- A loader that answers for finitely many URIs reads no file. -/
lemma fetchFile_ne_ok {l : Loader} (hfinite : {uri | ∃ document, l.fetch uri = .ok document}.Finite)
    (uri : String) (document : Json) : l.fetchFile uri ≠ .ok document := by
  intro h
  have hinjective : Function.Injective fun k => String.ofList (List.replicate k ' ' ++ uri.toList) := by
    intro j k hjk
    have hlength := congrArg (fun text => text.toList.length) hjk
    simpa using hlength
  refine Set.infinite_of_injective_forall_mem hinjective (fun k => ?_) hfinite
  simp only [Set.mem_ofPred_eq, fetch]
  split
  · next found _ => exact ⟨found, rfl⟩
  · exact ⟨document, fetchFile_replicate h k⟩

/-- What a finite loader answers with was given to it. -/
lemma lookup_of_fetch {l : Loader} (hfinite : {uri | ∃ document, l.fetch uri = .ok document}.Finite)
    {uri : String} {document : Json} (h : l.fetch uri = .ok document) :
    l.documents.lookup uri = some document := by
  unfold fetch at h
  split at h
  · next found hfound =>
    obtain rfl : found = document := by
      simpa using h
    exact hfound
  · exact (fetchFile_ne_ok hfinite uri document h).elim

/-- A loader without files answers for finitely many URIs. -/
lemma finite_of_no_files {l : Loader} (h : l.files.nodes = []) :
    {uri | ∃ document, l.fetch uri = .ok document}.Finite := by
  refine (l.documents.map (·.1)).finite_toSet.subset fun uri ⟨document, hfetch⟩ => ?_
  unfold fetch at hfetch
  split at hfetch
  · next found hfound =>
    obtain ⟨before, after, hdocuments, -⟩ := List.lookup_eq_some_iff.1 hfound
    simp [hdocuments]
  · obtain ⟨value, hvalue, -⟩ := map_eq_ok.1 hfetch
    obtain ⟨parts, -, -, path, -, content, hread, -⟩ := readFile_eq_ok.1 hvalue
    unfold Files.Tree.readFrom at hread
    obtain ⟨place, -, hnode⟩ := bind_eq_ok.1 hread
    by_cases hplace : place = []
    · simp [Files.Tree.node?, hplace, throw, throwThe, MonadExceptOf.throw] at hnode
    · simp [Files.Tree.node?, h, hplace, throw, throwThe, MonadExceptOf.throw] at hnode

end Loader

namespace Store

/-! ## How many nodes there can come to be -/

/-- The sizes of the documents that a store has not read, among some. -/
def unread (s : Store) (documents : List (String × Json)) : Nat :=
  ((documents.filter fun d => !s.hasLoaded d.1).map (·.2.size)).sum

/-- Reading a document takes its size from what is unread. -/
lemma unread_append (s : Store) (load : Load) {documents : List (String × Json)} {document : Json}
    (hlookup : documents.lookup load.uri = some document) (hfresh : s.hasLoaded load.uri = false) :
    unread ⟨s.loads ++ [load]⟩ documents + document.size ≤ s.unread documents := by
  unfold unread
  induction documents with
  | nil => simp at hlookup
  | cons d documents ih =>
    have hle : (((documents.filter fun d => !hasLoaded ⟨s.loads ++ [load]⟩ d.1).map (·.2.size)).sum) ≤
        (((documents.filter fun d => !s.hasLoaded d.1).map (·.2.size)).sum) := by
      refine List.Sublist.sum_le_sum (List.Sublist.map _ ?_) (by simp)
      refine List.monotone_filter_right _ fun d hd => ?_
      simp only [hasLoaded_append] at hd
      simp_all
    by_cases hd : load.uri = d.1
    · rw [List.lookup_cons, beq_iff_eq.2 hd] at hlookup
      obtain rfl : d.2 = document := by
        simpa using hlookup
      rw [List.filter_cons_of_neg (by simp [hasLoaded_append, hd]),
        List.filter_cons_of_pos (by simpa [hd] using hfresh), List.map_cons, List.sum_cons]
      omega
    · rw [List.lookup_cons, beq_eq_false_iff_ne.2 hd] at hlookup
      have hrest := ih hlookup
      cases hloaded : s.hasLoaded d.1 with
      | true =>
        rwa [List.filter_cons_of_neg (by simp [hasLoaded_append, hloaded]),
          List.filter_cons_of_neg (by simp [hloaded])]
      | false =>
        rw [List.filter_cons_of_pos (by simpa [hasLoaded_append, hloaded] using hd),
          List.filter_cons_of_pos (by simp [hloaded]), List.map_cons, List.map_cons, List.sum_cons,
          List.sum_cons]
        omega

lemma le_capacity (loader : Loader) (s : Store) : s.unread loader.documents ≤ loader.capacity := by
  unfold unread Loader.capacity
  generalize loader.fileWeight * (loader.fileWeight + Files.longestPath) = rest
  induction loader.documents with
  | nil => simp
  | cons d documents ih =>
    rw [List.foldr_cons, List.filter_cons]
    split
    · rw [List.map_cons, List.sum_cons]
      omega
    · omega

lemma weight_append (s : Store) (load : Load) :
    weight ⟨s.loads ++ [load]⟩ = s.weight + load.survey.places.length := by
  simp [weight, places]

/-- What is read and what is unread do not grow together: a document that is read has at most as many places as
it took from what was unread. -/
lemma Reads.weight_add_unread_le {loader : Loader} {s t : Store}
    (hfinite : {uri | ∃ document, loader.fetch uri = .ok document}.Finite) (h : Reads loader s t) :
    t.weight + t.unread loader.documents ≤ s.weight + s.unread loader.documents := by
  induction h with
  | refl => exact le_rfl
  | @tail u v _ step ih =>
    cases step with
    | @document uri members supplied fresh =>
      have hlookup := Loader.lookup_of_fetch hfinite supplied
      have hunread := unread_append u ⟨uri, survey (.root uri) (.obj members)⟩ hlookup fresh
      have hsize := length_places_le_size (.root uri) (.obj members)
      rw [weight_append]
      dsimp only at hunread ⊢
      omega

/-- There is a bound on the nodes that a store can come to have. -/
theorem Reads.weight_lt_capacity {loader : Loader} {s t : Store}
    (hfinite : {uri | ∃ document, loader.fetch uri = .ok document}.Finite) (h : Reads loader s t) :
    t.weight < s.capacity loader := by
  have hpotential := h.weight_add_unread_le hfinite
  have hunread := le_capacity loader s
  unfold capacity
  omega

end Store

/-! ## What reading does not fail of

Documents are fetched and surveyed, and what is wrong with them is one of a few kinds of failures; only references
that are followed can come to a bound, too. -/

namespace Failure

/-- Whether documents and URIs can be at fault, alone. -/
def ofDocuments (e : Failure) : Bool :=
  match e.family with
  | .schema | .value | .key | .encoding => true
  | _ => false

/-- Whether documents and URIs can be at fault where no reference is followed. -/
def ofReading : Failure → Bool
  | endless _ => false
  | e => e.ofDocuments

lemma ne_of_ofReading {e cause : Failure} (he : e.ofReading = false) (hcause : cause.ofReading = true) :
    cause ≠ e := by
  rintro rfl
  rw [he] at hcause
  exact Bool.noConfusion hcause

/-- What documents are not at fault for, reading does not fail of. -/
lemma ofReading_of_ofDocuments {e : Failure} (he : e.ofDocuments = false) : e.ofReading = false := by
  cases e with
  | endless uri => rfl
  | _ => exact he

end Failure

lemma mapError_ne_error {α ε : Type} {r : Except ε α} {f : ε → Failure} {e : Failure} (hf : ∀ cause, f cause ≠ e) :
    r.mapError f ≠ .error e := by
  cases r with
  | error cause => simpa [Except.mapError] using hf cause
  | ok a => simp [Except.mapError]

lemma map_ne_error {α β : Type} {r : Except Failure α} {f : α → β} {e : Failure} (hr : r ≠ .error e) :
    r.map f ≠ .error e := by
  cases r with
  | error e' => simpa [Except.map] using hr
  | ok a => simp [Except.map]

lemma bind_ne_error {α β : Type} {r : Except Failure α} {f : α → Except Failure β} {e : Failure}
    (hr : r ≠ .error e) (hf : ∀ a, f a ≠ .error e) : r >>= f ≠ .error e := by
  cases r with
  | error e' => simpa [bind, Except.bind] using hr
  | ok a => exact hf a

lemma forM_ne_error {α : Type} {f : α → Except Failure Unit} {e : Failure} (hf : ∀ a, f a ≠ .error e)
    (as : List α) : as.forM f ≠ .error e := by
  induction as with
  | nil => simp [pure, Except.pure]
  | cons a as ih => exact bind_ne_error (hf a) fun _ => ih

section Faultless

variable {e : Failure} (he : e.ofReading = false)

include he

lemma throw_ne_error {α : Type} {cause : Failure} (hcause : cause.ofReading = true) :
    (Except.error cause : Except Failure α) ≠ .error e :=
  fun h => Failure.ne_of_ofReading he hcause (Except.error.inj h)

lemma mapError_ne_error_of_ofReading {α ε : Type} {r : Except ε α} {f : ε → Failure}
    (hf : ∀ cause, (f cause).ofReading = true) : r.mapError f ≠ .error e :=
  mapError_ne_error fun cause => Failure.ne_of_ofReading he (hf cause)

lemma Loader.readFile_ne_error (l : Loader) (uri : String) : l.readFile uri ≠ .error e := by
  unfold readFile
  refine bind_ne_error (mapError_ne_error_of_ofReading he fun _ => rfl) fun parts => ?_
  dsimp only
  split
  · exact throw_ne_error he rfl
  refine bind_ne_error ?_ fun path => ?_
  · unfold Files.Path.passable
    split
    · exact throw_ne_error he rfl
    · simp
  refine bind_ne_error (mapError_ne_error_of_ofReading he fun _ => rfl) fun content => ?_
  refine bind_ne_error ?_ fun text => ?_
  · unfold textOf
    split
    · simp
    · exact throw_ne_error he rfl
  refine mapError_ne_error_of_ofReading he fun _ => ?_
  unfold Failure.ofReadError
  split <;> rfl

lemma Loader.fetch_ne_error (l : Loader) (uri : String) : l.fetch uri ≠ .error e := by
  unfold fetch
  split
  · simp
  · exact map_ne_error (l.readFile_ne_error he uri)

lemma Position.refuse_ne_error {cause : Failure} (hcause : cause.ofReading = true) (value : Json) :
    refuse cause value ≠ .error e := by
  refine throw_ne_error he ?_
  split
  · exact hcause
  · rfl

lemma Position.checkKind_ne_error (uri : String) (name : Json) : checkKind uri name ≠ .error e := by
  unfold checkKind
  split
  · simp
  · exact refuse_ne_error he rfl name

lemma Position.checkKinds_ne_error (uri : String) (ms : Members) : checkKinds uri ms ≠ .error e := by
  unfold checkKinds
  split
  · simp
  · simp
  · exact checkKind_ne_error he uri _
  · exact forM_ne_error (checkKind_ne_error he uri) _
  · exact refuse_ne_error he rfl _

lemma Position.enter_ne_error (p : Position) (ms : Members) : p.enter ms ≠ .error e := by
  unfold enter
  refine bind_ne_error (checkKinds_ne_error he _ _) fun _ => ?_
  dsimp only
  split
  · refine bind_ne_error (mapError_ne_error_of_ofReading he fun _ => rfl) fun uri => ?_
    refine bind_ne_error (mapError_ne_error_of_ofReading he fun _ => rfl) fun parts => ?_
    split <;> exact bind_ne_error (by simp [pure, Except.pure]) fun _ => by simp [pure, Except.pure]
  · exact bind_ne_error (by simp [pure, Except.pure]) fun _ => by simp [pure, Except.pure]

end Faultless

namespace Survey

lemma halt?_andThen_eq_some {s t : Survey} {halt : Halt} (h : (s.andThen t).halt? = some halt) :
    s.halt? = some halt ∨ t.halt? = some halt := by
  unfold andThen at h
  split at h
  · exact .inl h
  · exact .inr h

/-- A sequence of surveys ends early where a part does. -/
lemma halt?_sequence_eq_some {parts : List Survey} {halt : Halt} (h : (sequence parts).halt? = some halt) :
    ∃ part ∈ parts, part.halt? = some halt := by
  induction parts with
  | nil => simp [sequence, nothing] at h
  | cons part parts ih =>
    rcases halt?_andThen_eq_some (s := part) (t := sequence parts) h with hpart | hparts
    · exact ⟨part, List.mem_cons_self, hpart⟩
    · obtain ⟨part', hmem, hpart'⟩ := ih hparts
      exact ⟨part', List.mem_cons_of_mem _ hmem, hpart'⟩

lemma halt?_sequence_eq_none {parts : List Survey} (h : ∀ part ∈ parts, part.halt? = none) :
    (sequence parts).halt? = none := by
  rw [Option.eq_none_iff_forall_ne_some]
  intro halt hhalt
  obtain ⟨part, hpart, hsome⟩ := halt?_sequence_eq_some hhalt
  rw [h part hpart] at hsome
  cases hsome

end Survey

/-- A survey is ended by documents only. -/
lemma cause_ne_of_ofReading {e : Failure} (he : e.ofReading = false) (p : Position) (value : Json) :
    ∀ halt, (survey p value).halt? = some halt → halt.cause ≠ e := by
  induction p, value using survey_induction with
  | plain p value h => simp [survey_plain h]
  | object p ms ih =>
    intro halt hhalt
    cases h : p.enter ms with
    | error cause =>
      obtain rfl : ⟨p.path, cause⟩ = halt := by
        simpa [survey_refused h] using hhalt
      rintro rfl
      exact p.enter_ne_error he ms h
    | ok entered =>
      obtain ⟨n, addresses⟩ := entered
      rw [survey_entered h] at hhalt
      rcases Survey.halt?_andThen_eq_some hhalt with hnone | hparts
      · simp at hnone
      · obtain ⟨part, hpart, hcause⟩ := Survey.halt?_sequence_eq_some hparts
        obtain ⟨c, hc, rfl⟩ := List.mem_map.1 hpart
        exact ih c hc _ halt hcause

namespace Store

variable {loader : Loader} {s : Store}

section Faultless

variable {e : Failure} (he : e.ofReading = false)

include he

lemma split_ne_error (uri : String) (s : Store) : (outcome (split uri) s).1 ≠ .error e := by
  rw [outcome_split]
  exact mapError_ne_error_of_ofReading he fun _ => rfl

lemma load_ne_error (document : Json) (uri : String) (s : Store) :
    (outcome (load document uri) s).1 ≠ .error e := by
  cases hsplit : Uri.defragment uri with
  | error fault =>
    rw [outcome_load_of_fault hsplit]
    exact throw_ne_error he rfl
  | ok parts =>
    have hloading := loading_load hsplit document s
    generalize outcome (load document uri) s = r at hloading
    cases hloading with
    | known | loaded => exact nofun
    | lost | refused => exact throw_ne_error he rfl
    | halted new object halts => exact fun h => cause_ne_of_ofReading he _ _ _ halts (Except.error.inj h)

lemma resolve_ne_error (uri : String) (s : Store) : (outcome (resolve loader uri) s).1 ≠ .error e := by
  unfold resolve
  rw [outcome_bind_of_ok (outcome_get s)]
  split
  · simp
  refine outcome_bind_ne_error (split_ne_error he uri s) fun parts t _ => ?_
  refine outcome_bind_ne_error ?_ fun _ u _ => ?_
  · unfold ensureLoaded
    rw [outcome_bind_of_ok (outcome_get t)]
    split
    · refine outcome_bind_ne_error (loader.fetch_ne_error he _) fun document u _ => ?_
      exact outcome_bind_ne_error (load_ne_error he _ _ _) fun _ _ _ => by simp
    · simp
  · rw [outcome_bind_of_ok (outcome_get u)]
    dsimp only
    split
    · simp
    · exact throw_ne_error he rfl

end Faultless

section Faultless

variable {e : Failure} (he : e.ofDocuments = false)

include he

lemma follow_ne_error (hbound : e ≠ .exhausted) (fuel : Nat) (seen : List String) (entry : Entry) (s : Store) :
    (outcome (follow loader fuel seen entry) s).1 ≠ .error e := by
  have hreading := Failure.ofReading_of_ofDocuments he
  induction fuel generalizing seen entry s with
  | zero =>
    cases entry with
    | plain value => simp [follow_plain]
    | node n =>
      unfold follow
      split
      · simp
      · exact fun h => hbound (Except.error.inj h).symm
  | succ fuel ih =>
    cases entry with
    | plain value => simp [follow_plain]
    | node n =>
      cases hr : n.ref? with
      | none => simp [follow_of_no_ref hr]
      | some ref =>
        rw [follow_succ hr]
        split
        · exact fun h => by simp [← Except.error.inj h, Failure.ofDocuments, Failure.family] at he
        refine outcome_bind_ne_error (mapError_ne_error_of_ofReading hreading fun _ => rfl) fun target t _ => ?_
        exact outcome_bind_ne_error (resolve_ne_error hreading target t) fun entry u _ => ih _ entry u

lemma deref_ne_error (hbound : e ≠ .exhausted) (entry : Entry) (s : Store) :
    (outcome (deref loader entry) s).1 ≠ .error e := by
  unfold deref
  rw [outcome_bind_of_ok (outcome_get s)]
  exact follow_ne_error he hbound _ _ entry s

/-- Finding what properties stand for fails of documents, or comes to a bound. -/
lemma properties_ne_error (hbound : e ≠ .exhausted) (n : SchemaNode) (s : Store) :
    (outcome (properties loader n) s).1 ≠ .error e := by
  rw [outcome_properties]
  refine outcome_mapM_ne_error (P := fun _ => True) (fun p _ t _ => ⟨?_, fun _ _ _ => trivial⟩) trivial
  exact outcome_bind_ne_error (deref_ne_error he hbound p.2 t) fun _ _ _ => by simp

/-- Finding what items stand for fails of documents, or comes to a bound. -/
lemma items_ne_error (hbound : e ≠ .exhausted) (n : SchemaNode) (s : Store) :
    (outcome (items loader n) s).1 ≠ .error e := by
  rw [outcome_items]
  exact outcome_mapM_ne_error (P := fun _ => True)
    (fun entry _ t _ => ⟨deref_ne_error he hbound entry t, fun _ _ _ => trivial⟩) trivial

end Faultless

/-! ## Reading does not exhaust its bounds -/

/-- The URIs that were followed are those of nodes of the store, each followed once. -/
structure Followed (s : Store) (seen : List String) : Prop where
  distinct : seen.Nodup
  known : seen ⊆ s.nodes.map (·.uri)

lemma Followed.length_le {seen : List String} (h : s.Followed seen) : seen.length ≤ s.weight := by
  have hle := (h.distinct.subperm h.known).length_le
  rw [List.length_map] at hle
  exact hle.trans (List.length_filterMap_le _ _)

/-- Following does not come to its bound if the bound is not below the number of nodes that there can be. -/
lemma follow_ne_exhausted {fuel : Nat} {seen : List String} {e : Entry} (hseen : s.Followed seen) (he : s.Holds e)
    (hbound : ∀ t, Reads loader s t → t.weight < fuel + seen.length) :
    (outcome (follow loader fuel seen e) s).1 ≠ .error .exhausted := by
  induction fuel generalizing seen e s with
  | zero =>
    have hlength := hseen.length_le
    have hweight := hbound s .refl
    omega
  | succ fuel ih =>
    cases e with
    | plain value => simp [follow_plain]
    | node n =>
      cases hr : n.ref? with
      | none => simp [follow_of_no_ref hr]
      | some ref =>
        rw [follow_succ hr]
        split
        · simp
        next hnew =>
        refine outcome_bind_ne_error (mapError_ne_error fun _ => Failure.noConfusion) fun target t ht => ?_
        obtain rfl : s = t := congrArg Prod.snd ht
        refine outcome_bind_ne_error (resolve_ne_error rfl target s) fun e' u hu => ?_
        have hreads : Reads loader s u := outcome_leads (reads_resolve loader target s) hu
        refine ih ⟨?_, ?_⟩ (of_resolve_eq_ok hu).1 fun v hv => ?_
        · exact List.nodup_cons.2 ⟨by simpa using hnew, hseen.distinct⟩
        · refine List.cons_subset.2 ⟨?_, fun uri huri => ?_⟩
          · exact List.mem_map_of_mem (hreads.nodes_subset he.mem_nodes)
          · exact List.map_subset _ hreads.nodes_subset (hseen.known huri)
        · have hweight := hbound v (hreads.trans hv)
          rw [List.length_cons]
          omega

variable (hfinite : {uri | ∃ document, loader.fetch uri = .ok document}.Finite)

include hfinite

lemma deref_ne_exhausted {e : Entry} (he : s.Holds e) : (outcome (deref loader e) s).1 ≠ .error .exhausted := by
  unfold deref
  rw [outcome_bind_of_ok (outcome_get s)]
  refine follow_ne_exhausted ⟨List.nodup_nil, List.nil_subset _⟩ he fun t ht => ?_
  exact ht.weight_lt_capacity hfinite

/-- Finding what properties stand for comes to an end. -/
theorem properties_ne_exhausted (n : SchemaNode) (s : Store) :
    (outcome (properties loader n) s).1 ≠ .error .exhausted := by
  rw [outcome_properties]
  refine outcome_mapM_ne_error (P := Reads loader s) (fun p hp t ht => ⟨?_, fun q u hq => ?_⟩) .refl
  · have he := ht.holds (holds_of_mem_propertyEntries hp)
    exact outcome_bind_ne_error (deref_ne_exhausted hfinite he) fun _ _ _ => by simp
  · have hstep := outcome_bind_leads .trans (reads_deref loader p.2 t)
      (f := fun e => (pure (p.1, e) : StoreM (String × Entry))) fun _ _ _ => .refl
    rw [hq] at hstep
    exact ht.trans hstep

/-- Finding what items stand for comes to an end. -/
theorem items_ne_exhausted (n : SchemaNode) (s : Store) :
    (outcome (items loader n) s).1 ≠ .error .exhausted := by
  rw [outcome_items]
  refine outcome_mapM_ne_error (P := Reads loader s) (fun e he t ht => ⟨?_, fun e' u hu => ?_⟩) .refl
  · exact deref_ne_exhausted hfinite (ht.holds (holds_of_mem_itemEntries he))
  · have hreads := reads_deref loader e t
    rw [hu] at hreads
    exact ht.trans hreads

end Store

end SchemaAccessors
