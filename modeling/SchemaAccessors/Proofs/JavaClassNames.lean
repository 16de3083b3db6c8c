import SchemaAccessors.Proofs.JavaArguments

/-!
# Names of classes in Java code

The code of a class names the generated types, and classes of libraries: those of raw values, and the class of the
constants for numbers without digits. No other part of a line begins a name with a capital, unless behind a point or
in a literal for a text. Comments aside, each line of each file is shown to be put together from such parts.
-/

namespace SchemaAccessors

namespace Render.Java

/-! ## Parts of code -/

/-- Characters that names of Java go on with. -/
def isPart (c : Char) : Bool :=
  c.isAlphanum || c = '_' || c = '$'

/-- Whether the name of a class begins in a text: a capital that is not inside a name nor behind a point. -/
def namesClass : (inside : Bool) → List Char → Bool
  | _, [] => false
  | inside, c :: rest => (!inside && c.isUpper) || namesClass (isPart c || c = '.') rest

/-- A text is code that names no classes but generated types and those of a list. Behind the name of a class there is
always a mark that ends it. -/
inductive Code (m : Model) (classes : List String) : List Char → Prop
  /-- Words, marks, and names that are no names of classes. -/
  | plain {text : List Char} (h : namesClass false text = false) : Code m classes text
  | literal (text : String) : Code m classes (Json.encodeString text).toList
  /-- A reference to a generated type. -/
  | wrapper (type : TypeId) {mark : Char} {behind : List Char} (ends : isPart mark = false)
      (h : Code m classes (mark :: behind)) : Code m classes ((typeName m type).toList ++ mark :: behind)
  /-- A generated type where it is declared. -/
  | declared {t : WrapperType} (mem : t ∈ m.types) {mark : Char} {behind : List Char} (ends : isPart mark = false)
      (h : Code m classes (mark :: behind)) : Code m classes (t.name.toList ++ mark :: behind)
  | library {name : String} (mem : name ∈ classes) {mark : Char} {behind : List Char} (ends : isPart mark = false)
      (h : Code m classes (mark :: behind)) : Code m classes (name.toList ++ mark :: behind)
  | append {a b : List Char} (h : Code m classes a) (h' : Code m classes b) : Code m classes (a ++ b)

/-- A line of a documentation comment: its end, or a line that does not end it. -/
def IsComment (line : String) : Prop :=
  let text := line.toList.dropWhile (· = ' ')
  text = "*/".toList ∨ (text = "/**".toList ∨ text.head? = some '*') ∧ ¬ "*/".toList <:+: text

/-- A line names no classes but generated types and those of a list, its comments aside. -/
def IsLine (m : Model) (classes : List String) (line : String) : Prop :=
  IsComment line ∨ Code m classes line.toList

/-- The classes that raw values are taken as. -/
def rawClasses : List String := ["JSONArray", "JSONObject", "Number", "Object", "String"]

/-- Whether some method gives a number that is written as a constant of a class. -/
def writesConstant (m : Model) : Bool :=
  m.types.any fun t => t.methods.any fun method => method.value?.any needsDouble

/-- The classes of libraries that code names. -/
def libraries (m : Model) : List String :=
  rawClasses ++ if writesConstant m then ["Double"] else []

/-! ## Parts without names of classes -/

lemma namesClass_of_not_isUpper {text : List Char} (h : ∀ c ∈ text, c.isUpper = false) (inside : Bool) :
    namesClass inside text = false := by
  induction text generalizing inside with
  | nil => rfl
  | cons c text ih =>
    obtain ⟨hc, htext⟩ := List.forall_mem_cons.1 h
    simp [namesClass, hc, ih htext]

/-- A name goes on, with capitals or without. -/
lemma namesClass_of_isPart {text : List Char} (h : ∀ c ∈ text, isPart c = true) : namesClass true text = false := by
  induction text with
  | nil => rfl
  | cons c text ih =>
    obtain ⟨hc, htext⟩ := List.forall_mem_cons.1 h
    simp [namesClass, hc, ih htext]

/-- Names of letters and digits that begin with no capital. -/
def IsSmallName (name : String) : Prop :=
  ∃ c rest, name.toList = c :: rest ∧ c.isUpper = false ∧ ∀ d ∈ c :: rest, d.isAlphanum = true

lemma IsSmallName.namesClass {name : String} (h : IsSmallName name) : namesClass false name.toList = false := by
  obtain ⟨c, rest, hname, hc, hall⟩ := h
  have hparts : ∀ d ∈ c :: rest, isPart d = true := fun d hd => by simp [isPart, hall d hd]
  obtain ⟨hfirst, hrest⟩ := List.forall_mem_cons.1 hparts
  simp [hname, Java.namesClass, hc, hfirst, namesClass_of_isPart hrest]

lemma isUpper_of_isDigit {c : Char} (h : c.isDigit = true) : c.isUpper = false := by
  by_contra hupper
  have hnot := Naming.not_isDigit_of_isUpper (by simpa using hupper)
  rw [h] at hnot
  cases hnot

lemma namesClass_int (n : Int) : namesClass false (toString n).toList = false := by
  refine namesClass_of_not_isUpper (fun c hc => ?_) false
  have hdigits := Binary64.forall_mem_toDigits (P := fun c => c.isUpper = false) (fun _ => isUpper_of_isDigit) n.natAbs
  rw [toList_int] at hc
  split at hc
  · rcases List.mem_cons.1 hc with rfl | hc
    · decide
    · exact hdigits c hc
  · exact hdigits c hc

/-- The mark of a long integer stands inside the number. -/
lemma namesClass_long (n : Int) : namesClass false ((toString n).toList ++ ['L']) = false := by
  have hdigits {digits : List Char} (hall : Binary64.AllDigits digits) (hne : digits ≠ []) (inside : Bool) :
      namesClass inside (digits ++ ['L']) = false := by
    induction digits generalizing inside with
    | nil => exact absurd rfl hne
    | cons c digits ih =>
      obtain ⟨hc, hall⟩ := List.forall_mem_cons.1 hall
      have hpart : isPart c = true := by simp [isPart, Naming.isAlphanum_of_isDigit hc]
      rcases eq_or_ne digits [] with rfl | hne
      · simp [namesClass, isUpper_of_isDigit hc, hpart]
      · simp [namesClass, isUpper_of_isDigit hc, ih hall hne]
  have hnumber := hdigits (Binary64.allDigits_toDigits n.natAbs) Nat.toDigits_ne_nil
  rw [toList_int]
  split
  · simpa [namesClass] using hnumber (isPart '-')
  · exact hnumber false

section Parts

variable {m : Model} {classes : List String}

lemma Code.cons {c : Char} {rest : List Char} (hc : c.isUpper = false) (h : Code m classes rest) :
    Code m classes (c :: rest) :=
  .append (a := [c]) (.plain (by simp [namesClass, hc])) h

lemma Code.intercalate {separator : String} (h : Code m classes separator.toList) {texts : List String}
    (htexts : ∀ text ∈ texts, Code m classes text.toList) :
    Code m classes (String.intercalate separator texts).toList := by
  induction texts with
  | nil => exact .plain rfl
  | cons text rest ih =>
    obtain ⟨htext, hrest⟩ := List.forall_mem_cons.1 htexts
    cases rest with
    | nil => simpa using htext
    | cons next rest =>
      rw [String.intercalate_cons_cons, String.toList_append, String.toList_append]
      exact .append (.append htext h) (ih hrest)

lemma Code.indentLine {line : String} (h : Code m classes line.toList) :
    Code m classes (indentLine line).toList := by
  unfold Render.indentLine
  split
  · exact .plain rfl
  · rw [String.toList_append]
    exact .append (.plain (by decide)) h

/-! ## Defaults -/

/-- A default that can be written with the classes of a list. -/
structure IsGiven (classes : List String) (value : Json) : Prop where
  literal : ∃ n : SchemaNode, n.literal? = some value
  known : needsDouble value = true → "Double" ∈ classes

lemma Code.double {x : Binary64} (h : x.hasDigits = false → "Double" ∈ classes) :
    Code m classes (double x).toList := by
  have hconstant {rest : List Char} (hknown : "Double" ∈ classes) (hrest : namesClass false ('.' :: rest) = false) :
      Code m classes ("Double".toList ++ '.' :: rest) := .library hknown (by decide) (.plain hrest)
  cases x with
  | nan =>
    have htext : (Java.double .nan).toList = "Double".toList ++ '.' :: "NaN".toList := by decide
    rw [htext]
    exact hconstant (h rfl) (by decide)
  | infinite negative =>
    have htext : (Java.double (.infinite negative)).toList = "Double".toList ++ '.' ::
        (if negative then "NEGATIVE_INFINITY" else "POSITIVE_INFINITY").toList := by cases negative <;> decide
    rw [htext]
    exact hconstant (h rfl) (by cases negative <;> decide)
  | finite negative significand exponent =>
    refine .plain (namesClass_of_not_isUpper ?_ false)
    exact Binary64.forall_mem_finite (P := fun c => c.isUpper = false) (fun _ => isUpper_of_isDigit) (by decide)
      Binary64.plainLayout negative significand exponent

lemma Form.code {kind : RawKind} {value : Json} {text : String} (h : Form kind value text)
    (hvalue : IsGiven classes value) : Code m classes text.toList := by
  obtain ⟨⟨node, hnode⟩, hknown⟩ := hvalue
  have hscalar := isSome_defaultType?_of_literal? hnode .any
  have hnearest {n : Int} {x : Binary64} (hx : Java.nearest n = .ok x) : x.hasDigits = false → "Double" ∈ classes :=
    fun hnone => absurd (hasDigits_of_nearest hx) (by simp [hnone])
  have hconverted {x : Binary64} (hx : x.hasDigits = false → "Double" ∈ classes) :
      Code m classes ("(int) " ++ Java.double x).toList := by
    rw [String.toList_append]
    exact .append (.plain (by decide)) (.double hx)
  cases h with
  | bool b => exact .plain (by cases b <;> decide)
  | int fits => exact .plain (namesClass_int _)
  | @long n other wide fits =>
    have htext : (s!"{n}L").toList = (toString n).toList ++ ['L'] := String.toList_append
    rw [htext]
    exact .plain (namesClass_long n)
  | nearest other wide wider hx => exact .double (hnearest hx)
  | convertedNearest same wide hx => exact hconverted (hnearest hx)
  | double other => exact .double fun hnone => hknown (by simp [needsDouble, hnone])
  | whole same value fits => exact .plain (namesClass_int _)
  | converted same => exact hconverted fun hnone => hknown (by simp [needsDouble, hnone])
  | str s => exact .literal s
  | null => cases hscalar
  | arr xs => cases hscalar
  | obj ms => cases hscalar

/-! ## Expressions -/

variable (hraw : rawClasses ⊆ classes)

include hraw

/-- The type of raw values of a kind is a class of the list, or no class. -/
lemma Code.rawType (kind : RawKind) {mark : Char} {behind : List Char} (ends : isPart mark = false)
    (h : Code m classes (mark :: behind)) : Code m classes ((rawType kind).toList ++ mark :: behind) := by
  have hname : Java.rawType kind ∈ rawClasses ∨ namesClass false (Java.rawType kind).toList = false := by
    cases kind <;> decide
  rcases hname with hname | hname
  · exact .library (hraw hname) ends h
  · exact .append (.plain hname) h

lemma Code.typeText (r : TypeRef) {mark : Char} {behind : List Char} (ends : isPart mark = false)
    (h : Code m classes (mark :: behind)) : Code m classes ((typeText m r).toList ++ mark :: behind) := by
  unfold Java.typeText
  split
  · exact .wrapper _ ends h
  · exact .rawType hraw _ ends h

lemma Code.castField {f : Field} (hname : IsSmallName f.name) (kind : RawKind) :
    Code m classes (castField f kind).toList := by
  unfold Java.castField
  split
  · exact .plain hname.namesClass
  · have htext : (s!"(({Java.rawType kind}) {f.name})").toList =
        "((".toList ++ ((Java.rawType kind).toList ++ ')' :: ' ' :: (f.name.toList ++ [')'])) := by
      simp [toString]
    rw [htext]
    refine .append (.plain (by decide)) (.rawType hraw kind (by decide) (.cons (by decide) (.cons (by decide) ?_)))
    exact .append (.plain hname.namesClass) (.plain (by decide))

omit hraw in
lemma Code.lookup {target key : String} (htarget : Code m classes target.toList) (hkey : Code m classes key.toList)
    (kind : RawKind) {default? : Option Json} (hdefault : ∀ value, default? = some value → IsGiven classes value)
    {text : String} (h : lookup target key kind default? = .ok text) : Code m classes text.toList := by
  cases default? with
  | none =>
    have hname : namesClass false (".get" ++ (lookupKind kind).getD "" ++ "(").toList = false := by
      cases kind <;> decide
    have htext : text.toList =
        target.toList ++ ((".get" ++ (lookupKind kind).getD "" ++ "(").toList ++ (key.toList ++ [')'])) := by
      rw [← Except.ok.inj h]
      simp [toString]
    rw [htext]
    exact .append htarget (.append (.plain hname) (.append hkey (.plain (by decide))))
  | some value =>
    obtain ⟨default, hliteral, hlast⟩ := bind_eq_ok.1 h
    have hcode : Code m classes default.toList := (form_of_literalFor hliteral).code (hdefault value rfl)
    cases hkind : lookupKind kind with
    | none =>
      rw [hkind] at hlast
      have htext : text.toList = target.toList ++ (".opt(".toList ++ (key.toList ++ (") != null ? ".toList ++
          (target.toList ++ (".get(".toList ++ (key.toList ++ (") : ".toList ++ default.toList))))))) := by
        rw [← Except.ok.inj hlast]
        simp [toString]
      rw [htext]
      exact .append htarget (.append (.plain (by decide)) (.append hkey (.append (.plain (by decide))
        (.append htarget (.append (.plain (by decide)) (.append hkey (.append (.plain (by decide)) hcode)))))))
    | some name =>
      rw [hkind] at hlast
      have hname : namesClass false (".opt" ++ name ++ "(").toList = false := by
        cases kind <;> cases hkind <;> decide
      have htext : text.toList = target.toList ++ ((".opt" ++ name ++ "(").toList ++ (key.toList ++
          (", ".toList ++ (default.toList ++ [')'])))) := by
        rw [← Except.ok.inj hlast]
        simp [toString]
      rw [htext]
      exact .append htarget (.append (.plain hname) (.append hkey (.append (.plain (by decide))
        (.append hcode (.plain (by decide))))))

lemma Code.expr {e : Expr} (hnames : ∀ name ∈ e.names, IsSmallName name)
    (hvalue : ∀ value, e.value? = some value → IsGiven classes value) {text : String} (h : expr m e = .ok text) :
    Code m classes text.toList := by
  induction e generalizing text with
  | field f =>
    rw [← Except.ok.inj h]
    exact .plain (hnames f.name List.mem_cons_self).namesClass
  | literal value => exact (form_of_literal h).code (hvalue value rfl)
  | property f key kind default? =>
    exact .lookup (.castField hraw (hnames f.name List.mem_cons_self) _) (.literal key) kind hvalue h
  | item f index kind default? =>
    have hindex := hnames index.name (List.mem_cons_of_mem _ List.mem_cons_self)
    exact .lookup (.castField hraw (hnames f.name List.mem_cons_self) _) (.plain hindex.namesClass) kind
      hvalue h
  | presence f key =>
    have htext : text.toList = (Java.castField f .object).toList ++ (".has(".toList ++
        ((Json.encodeString key).toList ++ [')'])) := by
      rw [← Except.ok.inj h]
      simp [toString]
    rw [htext]
    exact .append (.castField hraw (hnames f.name List.mem_cons_self) _)
      (.append (.plain (by decide)) (.append (.literal key) (.plain (by decide))))
  | length f =>
    have htext : text.toList = (Java.castField f .array).toList ++ ".length()".toList := by
      rw [← Except.ok.inj h]
      simp [toString]
    rw [htext]
    exact .append (.castField hraw (hnames f.name List.mem_cons_self) _) (.plain (by decide))
  | construct type argument ih =>
    obtain ⟨inner, hinner, hlast⟩ := bind_eq_ok.1 h
    have htext : text.toList = "new ".toList ++ ((typeName m type).toList ++ '(' :: (inner.toList ++ [')'])) := by
      rw [← Except.ok.inj hlast]
      simp [toString]
    rw [htext]
    have hargument := ih hnames hvalue hinner
    exact .append (.plain (by decide)) (.wrapper type (by decide) (.cons (by decide)
      (.append hargument (.plain (by decide)))))
  | foreign value => cases h

/-! ## Members -/

omit hraw in
lemma Code.word (v : Visibility) : Code m classes v.word.toList :=
  .plain (by cases v <;> decide)

lemma Code.parameters {ps : List Parameter} (hnames : ∀ name ∈ ps.map (·.name), IsSmallName name) :
    Code m classes (parameters m ps).toList := by
  refine .intercalate (.plain (by decide)) fun text htext => ?_
  obtain ⟨p, hp, rfl⟩ := List.mem_map.1 htext
  have hparameter : (s!"{Java.typeText m p.type} {p.name}").toList =
      (Java.typeText m p.type).toList ++ ' ' :: p.name.toList := by simp [toString]
  rw [hparameter]
  have hname := hnames p.name (List.mem_map_of_mem hp)
  exact .typeText hraw p.type (by decide) (.cons (by decide) (.plain hname.namesClass))

lemma Code.fieldLine {f : Field} (hname : IsSmallName f.name) : Code m classes (fieldLine m f).toList := by
  have hfinal : namesClass false (if f.isFinal then " final" else "").toList = false := by cases f.isFinal <;> decide
  have hline : (Java.fieldLine m f).toList = f.visibility.word.toList ++ ((if f.isFinal then " final" else "").toList ++
      ' ' :: ((Java.typeText m f.type).toList ++ ' ' :: (f.name.toList ++ [';']))) := by simp [Java.fieldLine, toString]
  rw [hline]
  refine .append (.word f.visibility) (.append (.plain hfinal) (.cons (by decide) ?_))
  exact .typeText hraw f.type (by decide) (.cons (by decide) (.append (.plain hname.namesClass) (.plain (by decide))))

/-- A constructor is named like its class. -/
lemma Code.constructorLines {t : WrapperType} (ht : t ∈ m.types) {c : Constructor}
    (hnames : ∀ name ∈ c.names, IsSmallName name) :
    ∀ line ∈ constructorLines m t.name c, Code m classes line.toList := by
  obtain ⟨hparameters, hassigned⟩ := List.forall_mem_append.1 hnames
  have hhead : (s!"{c.visibility.word} {t.name}({Java.parameters m c.parameters}) \x7b").toList =
      c.visibility.word.toList ++ ' ' :: (t.name.toList ++ '(' :: ((Java.parameters m c.parameters).toList ++
        [')', ' ', '\x7b'])) := by simp [toString]
  unfold Java.constructorLines
  simp only [List.forall_mem_append, List.forall_mem_singleton]
  refine ⟨⟨?_, ?_⟩, .plain (by decide)⟩
  · rw [hhead]
    refine .append (.word c.visibility) (.cons (by decide) (.declared ht (by decide) (.cons (by decide) ?_)))
    exact .append (.parameters hraw hparameters) (.plain (by decide))
  · refine List.forall_mem_map.2 fun line hline => .indentLine ?_
    obtain ⟨⟨field, parameter⟩, hmem, rfl⟩ := List.mem_map.1 hline
    have hboth : ∀ name ∈ [field, parameter], IsSmallName name := fun name hin =>
      hassigned name (List.mem_flatMap.2 ⟨_, hmem, hin⟩)
    have htext : (s!"this.{field} = {parameter};").toList = "this.".toList ++ (field.toList ++ (" = ".toList ++
        (parameter.toList ++ [';']))) := by simp [toString]
    rw [htext]
    refine .append (.plain (by decide)) (.append (.plain (hboth field List.mem_cons_self).namesClass) ?_)
    refine .append (.plain (by decide)) (.append (.plain ?_) (.plain (by decide)))
    exact (hboth parameter (List.mem_cons_of_mem _ List.mem_cons_self)).namesClass

lemma Code.methodLines {method : Method} (hnames : ∀ name ∈ method.names, IsSmallName name)
    (hvalue : ∀ value, method.value? = some value → IsGiven classes value) {lines : List String}
    (h : methodLines m method = .ok lines) : ∀ line ∈ lines, Code m classes line.toList := by
  obtain ⟨hname, hrest⟩ := List.forall_mem_cons.1 hnames
  obtain ⟨hparameters, hbody⟩ := List.forall_mem_append.1 hrest
  unfold Java.methodLines at h
  split at h
  · next body hsome =>
    rw [hsome] at hbody
    obtain ⟨code, hcode, hlast⟩ := bind_eq_ok.1 h
    have hexpr : Code m classes code.toList := .expr hraw hbody (fun value h => hvalue value (by
      rw [Method.value?, hsome]
      exact h)) hcode
    have hhead : (s!"{method.visibility.word} {Java.typeText m method.returns} {method.name}({Java.parameters m
        method.parameters}) \x7b").toList = method.visibility.word.toList ++ ' ' ::
        ((Java.typeText m method.returns).toList ++ ' ' :: (method.name.toList ++ '(' ::
          ((Java.parameters m method.parameters).toList ++ [')', ' ', '\x7b']))) := by simp [toString]
    have hreturn : (s!"{indentUnit}return {code};").toList =
        (indentUnit ++ "return ").toList ++ (code.toList ++ [';']) := by simp [toString]
    rw [← Except.ok.inj hlast]
    simp only [List.forall_mem_cons, List.not_mem_nil, false_imp_iff, implies_true, and_true]
    refine ⟨?_, ?_, .plain (by decide)⟩
    · rw [hhead]
      refine .append (.word method.visibility) (.cons (by decide) (.typeText hraw _ (by decide) (.cons (by decide) ?_)))
      exact .append (.plain hname.namesClass) (.cons (by decide) (.append (.parameters hraw hparameters)
        (.plain (by decide))))
    · rw [hreturn]
      exact .append (.plain (by decide)) (.append hexpr (.plain (by decide)))
  · cases h

/-! ## Comments -/

omit hraw

lemma isComment_docLine (line : String) : IsComment (docLine line) := by
  have hkept : ∃ rest, (docLine line).toList = ' ' :: '*' :: rest := by
    have hmark : (" * " ++ String.ofList (escapeDoc line.toList)).toList.reverse =
        (' ' :: escapeDoc line.toList).reverse ++ ['*', ' '] := by simp
    rw [docLine, Text.trimRight, hmark, String.toList_ofList, List.dropWhile_append]
    split
    · exact ⟨[], by decide⟩
    · exact ⟨_, by rw [List.reverse_append]; rfl⟩
  obtain ⟨rest, hrest⟩ := hkept
  have htext : (docLine line).toList.dropWhile (· = ' ') = '*' :: rest := by
    rw [hrest]
    rfl
  refine .inr ⟨.inr (by rw [htext, List.head?_cons]), fun hends => not_infix_docLine line ?_⟩
  exact hends.trans (List.dropWhile_suffix _).isInfix

lemma isComment_of_docComment (doc : String) : ∀ line ∈ docComment doc, IsComment line := by
  have hlines (text : List Char) : ∀ line ∈ (Text.lines (String.ofList text)).map docLine, IsComment line :=
    List.forall_mem_map.2 fun line _ => isComment_docLine line
  have hstart : IsComment "/**" := .inr ⟨.inl rfl, by decide⟩
  have hend : IsComment " */" := .inl rfl
  have hbefore : IsComment " * <pre>" := .inr ⟨.inr rfl, by decide⟩
  have hbehind : IsComment " * </pre>" := .inr ⟨.inr rfl, by decide⟩
  unfold docComment
  dsimp only
  simp only [List.forall_mem_append, List.forall_mem_singleton]
  refine ⟨⟨⟨hstart, hlines _⟩, ?_⟩, hend⟩
  split
  · exact fun line hline => (List.not_mem_nil hline).elim
  · simp only [List.forall_mem_append, List.forall_mem_singleton]
    exact ⟨⟨hbefore, hlines _⟩, hbehind⟩

/-- A line of a comment stays one if it is indented. -/
lemma IsComment.indentLine {line : String} (h : IsComment line) : IsComment (indentLine line) := by
  have hvisible : Text.isBlankLine line = false := by
    have hfirst : ∃ c ∈ line.toList.dropWhile (· = ' '), Text.isBlank c = false := by
      rcases h with htext | ⟨htext | hstar, -⟩
      · exact ⟨'*', by rw [htext]; decide, by decide⟩
      · exact ⟨'*', by rw [htext]; decide, by decide⟩
      · exact ⟨'*', List.mem_of_head? hstar, by decide⟩
    obtain ⟨c, hc, hshown⟩ := hfirst
    exact isBlankLine_of_mem ((List.dropWhile_suffix _).subset hc) hshown
  have htext : (Render.indentLine line).toList.dropWhile (· = ' ') = line.toList.dropWhile (· = ' ') := by
    rw [Render.indentLine, hvisible, if_neg Bool.false_ne_true, String.toList_append,
      List.dropWhile_append_of_pos (by decide)]
  unfold IsComment at h ⊢
  rwa [htext]

lemma IsLine.indentLine {line : String} (h : IsLine m classes line) : IsLine m classes (indentLine line) :=
  h.imp IsComment.indentLine Code.indentLine

/-! ## Classes -/

/-- A type of a model whose members have small names, and whose defaults can be written with the classes of a list. -/
structure IsWritten (m : Model) (classes : List String) (t : WrapperType) : Prop where
  mem : t ∈ m.types
  small : ∀ name ∈ t.names.tail, IsSmallName name
  given : ∀ method ∈ t.methods, ∀ value, method.value? = some value → IsGiven classes value

lemma isLine_of_blocks {blocks : List (List String)} (h : ∀ block ∈ blocks, ∀ line ∈ block, IsLine m classes line) :
    ∀ line ∈ Render.indent (Render.dropEmptyEnd (spaced blocks)), IsLine m classes line := by
  have hspaced : ∀ line ∈ spaced blocks, IsLine m classes line := by
    intro line hline
    obtain ⟨block, hblock, hline⟩ := List.mem_flatMap.1 hline
    rcases List.mem_append.1 hline with hline | hline
    · exact h block hblock line hline
    · rw [List.mem_singleton.1 hline]
      exact .inr (.plain rfl)
  refine List.forall_mem_map.2 fun line hline => .indentLine (hspaced line ?_)
  obtain ⟨empty, hsplit, -⟩ := exists_dropEmptyEnd (spaced blocks)
  rw [hsplit]
  exact List.mem_append_left _ hline

include hraw

/-- The blocks below the header of a class. -/
lemma IsWritten.isLine_of_mem {t : WrapperType} (h : IsWritten m classes t) {methods nested : List (List String)}
    (hmethods : t.methods.mapM (methodLines m) = .ok methods)
    (hnested : ∀ block ∈ nested, ∀ line ∈ block, IsLine m classes line) :
    ∀ block ∈ (if t.fields.isEmpty then [] else [t.fields.map (fieldLine m)]) ++
      t.constructors.map (constructorLines m t.name) ++ methods ++ nested, ∀ line ∈ block, IsLine m classes line := by
  obtain ⟨hdata, hmethodNames⟩ := List.forall_mem_append.1 h.small
  obtain ⟨hfieldNames, hconstructorNames⟩ := List.forall_mem_append.1 hdata
  intro block hblock
  rw [List.mem_append, List.mem_append, List.mem_append] at hblock
  rcases hblock with ((hfields | hconstructor) | hmethod) | hclass
  · split at hfields
    · cases hfields
    · rw [List.mem_singleton.1 hfields]
      exact List.forall_mem_map.2 fun f hf => .inr (.fieldLine hraw (hfieldNames f.name (List.mem_map_of_mem hf)))
  · obtain ⟨c, hc, rfl⟩ := List.mem_map.1 hconstructor
    exact fun line hline => .inr (.constructorLines hraw h.mem (fun name hname =>
      hconstructorNames name (List.mem_flatMap.2 ⟨c, hc, hname⟩)) line hline)
  · obtain ⟨method, hmem, hlines⟩ := exists_of_mapM_eq_ok hmethods block hmethod
    exact fun line hline => .inr (.methodLines hraw (fun name hname =>
      hmethodNames name (List.mem_flatMap.2 ⟨method, hmem, hname⟩)) (h.given method hmem) hlines line hline)
  · exact hnested block hclass

end Parts

mutual

/-- Each line of a class is one of a comment, or names no classes but these. -/
theorem isLine_of_classLines {m : Model} {classes : List String} (hraw : rawClasses ⊆ classes) :
    (tree : TypeTree) → (∀ t ∈ tree.types, IsWritten m classes t) → ∀ {lines : List String},
      classLines m tree = .ok lines → ∀ line ∈ lines, IsLine m classes line
  | .node id t inner, hwritten, lines, h => by
    obtain ⟨ht, hinner⟩ := List.forall_mem_cons.1 hwritten
    unfold classLines at h
    obtain ⟨methods, hmethods, h⟩ := bind_eq_ok.1 h
    obtain ⟨nested, hnested, hlast⟩ := bind_eq_ok.1 h
    have hdoc : ∀ line ∈ if t.doc.isEmpty then [] else docComment t.doc, IsLine m classes line := by
      split
      · exact fun line hline => (List.not_mem_nil hline).elim
      · exact fun line hline => .inl (isComment_of_docComment t.doc line hline)
    have hhead {modifiers : String} (hmodifiers : modifiers = "public" ∨ modifiers = "public static") :
        Code m classes (s!"{modifiers} class {t.name} \x7b").toList := by
      have htext : (s!"{modifiers} class {t.name} \x7b").toList =
          (modifiers ++ " class ").toList ++ (t.name.toList ++ ' ' :: ['\x7b']) := by simp [toString]
      rw [htext]
      refine .append (.plain ?_) (.declared ht.mem (by decide) (.plain (by decide)))
      rcases hmodifiers with rfl | rfl <;> decide
    have hbody := isLine_of_blocks (ht.isLine_of_mem hraw hmethods (isLine_of_classesLines hraw inner hinner hnested))
    rw [← Except.ok.inj hlast]
    simp only [List.forall_mem_append, List.forall_mem_singleton]
    exact ⟨⟨⟨hdoc, .inr (hhead (ite_eq_or_eq (t.isTopLevel = true) _ _))⟩, hbody⟩, .inr (.plain (by decide))⟩

theorem isLine_of_classesLines {m : Model} {classes : List String} (hraw : rawClasses ⊆ classes) :
    (trees : List TypeTree) → (∀ t ∈ TypeTree.allTypes trees, IsWritten m classes t) → ∀ {blocks : List (List String)},
      classesLines m trees = .ok blocks → ∀ block ∈ blocks, ∀ line ∈ block, IsLine m classes line
  | [], _, blocks, h => by
    rw [← Except.ok.inj h]
    exact fun block hblock => (List.not_mem_nil hblock).elim
  | tree :: rest, hwritten, blocks, h => by
    obtain ⟨hfirst, hrest⟩ := List.forall_mem_append.1 hwritten
    unfold classesLines at h
    obtain ⟨lines, hlines, h⟩ := bind_eq_ok.1 h
    obtain ⟨others, hothers, hlast⟩ := bind_eq_ok.1 h
    rw [← Except.ok.inj hlast]
    exact List.forall_mem_cons.2 ⟨isLine_of_classLines hraw tree hfirst hlines,
      isLine_of_classesLines hraw rest hrest hothers⟩

end

/-! ## The class of constants -/

lemma infix_double {x : Binary64} (hx : x.hasDigits = false) : "Double.".toList <:+: (double x).toList := by
  cases x with
  | nan => decide
  | infinite negative => cases negative <;> decide
  | finite negative significand exponent => cases hx

lemma Form.infix_double {kind : RawKind} {x : Binary64} {text : String} (h : Form kind (.float x) text)
    (hx : x.hasDigits = false) : "Double.".toList <:+: text.toList := by
  cases h with
  | double other => exact Java.infix_double hx
  | whole same hvalue fits =>
    rw [hasDigits_of_toInt? hvalue] at hx
    cases hx
  | converted same =>
    rw [String.toList_append]
    exact (Java.infix_double hx).trans (List.suffix_append _ _).isInfix

lemma infix_double_of_lookup {x : Binary64} (hx : x.hasDigits = false) {target key text : String} {kind : RawKind}
    (h : lookup target key kind (some (.float x)) = .ok text) : "Double.".toList <:+: text.toList := by
  obtain ⟨default, hliteral, hlast⟩ := bind_eq_ok.1 h
  refine ((form_of_literalFor hliteral).infix_double hx).trans ?_
  split at hlast
  · rw [← Except.ok.inj hlast]
    simp only [toString, String.toList_append]
    exact (List.suffix_append _ _).isInfix
  · rw [← Except.ok.inj hlast]
    simp only [toString, String.toList_append]
    exact List.infix_append _ _ _

/-- A number without digits is written as a constant of a class, wherever it is a default. -/
lemma infix_double_of_expr {m : Model} {e : Expr} {x : Binary64} (hvalue : e.value? = some (.float x))
    (hx : x.hasDigits = false) {text : String} (h : expr m e = .ok text) : "Double.".toList <:+: text.toList := by
  induction e generalizing text with
  | literal value' =>
    obtain rfl := Option.some.inj hvalue
    rw [← Except.ok.inj h]
    exact infix_double hx
  | property f key kind default? =>
    obtain rfl : default? = some (.float x) := hvalue
    exact infix_double_of_lookup hx h
  | item f index kind default? =>
    obtain rfl : default? = some (.float x) := hvalue
    exact infix_double_of_lookup hx h
  | construct type argument ih =>
    obtain ⟨inner, hinner, hlast⟩ := bind_eq_ok.1 h
    rw [← Except.ok.inj hlast]
    simp only [toString, String.toList_append]
    exact (ih hvalue hinner).trans (List.infix_append _ _ _)
  | field f => cases hvalue
  | presence f key => cases hvalue
  | length f => cases hvalue
  | foreign value' => cases hvalue

lemma infix_double_of_methodLines {m : Model} {method : Method} (hvalue : method.value?.any needsDouble = true)
    {lines : List String} (h : methodLines m method = .ok lines) :
    ∃ line ∈ lines, "Double.".toList <:+: line.toList := by
  obtain ⟨value, hvalue, hneeds⟩ := (Option.any_eq_true _ _).1 hvalue
  obtain ⟨x, rfl, hx⟩ : ∃ x, value = .float x ∧ x.hasDigits = false := by
    cases value with
    | float x => exact ⟨x, rfl, by simpa [needsDouble] using hneeds⟩
    | _ => cases hneeds
  unfold methodLines at h
  split at h
  · next body hbody =>
    rw [Method.value?, hbody] at hvalue
    obtain ⟨code, hcode, hlast⟩ := bind_eq_ok.1 h
    refine ⟨s!"{indentUnit}return {code};", by simp [← Except.ok.inj hlast], ?_⟩
    simp only [toString, String.toList_append]
    exact (infix_double_of_expr hvalue hx hcode).trans (List.infix_append _ _ _)
  · cases h

end Render.Java

/-! ## Types behind a pass -/

lemma Naming.IsMethodName.isSmallName {name : String} (h : IsMethodName name) : Render.Java.IsSmallName name := by
  have hall := h.isAlphanum
  rcases h with rfl | ⟨stem, hstem, suffix, -, rfl⟩
  · exact ⟨'s', "ize".toList, rfl, by decide, hall⟩
  · have hstart : ∃ c rest, stem.toList = c :: rest ∧ c.isUpper = false := by
      simp only [methodStems, List.mem_cons, List.not_mem_nil, or_false] at hstem
      rcases hstem with rfl | rfl | rfl <;> exact ⟨_, _, rfl, by decide⟩
    obtain ⟨c, rest, hstart, hc⟩ := hstart
    have hname : (stem ++ suffix).toList = c :: (rest ++ suffix.toList) := by
      rw [String.toList_append, hstart, List.cons_append]
    exact ⟨c, _, hname, hc, hname ▸ hall⟩

lemma RawKind.isSmallName_field (raw : RawKind) : Render.Java.IsSmallName raw.field.name := by
  cases raw <;> exact ⟨_, _, rfl, by decide, by decide +kernel⟩

/-- Behind a pass that succeeds, the members of all types have small names. -/
lemma Drafting.isSmallName_of_pass {s : Setting} {store : Store} {root : SchemaNode} {model : Model} {trace : Trace}
    {d : Drafting} (hstore : store.Genuine) (hmodel : model.types = []) (hroot : root ∈ store.nodes)
    (hok : outcome (pass s root) { start store model with trace } = (.ok ⟨⟩, d)) :
    ∀ t ∈ d.model.types, ∀ name ∈ t.names.tail, Render.Java.IsSmallName name := by
  intro t ht name hname
  have haccounted : Accounted s store root (fun _ => {}) [] [] (start store model) := accounted_start hstore _
  obtain ⟨-, hfilled⟩ := filled_of_pass (haccounted.read .refl trace) (owned_start store hmodel) hroot hok
  have hworded : d.Worded s := outcome_leads (keepsWording_pass root _) hok ((worded_start s store hmodel).read _ trace)
  obtain ⟨n, -, -, f, hf⟩ := hfilled t ht
  rcases List.mem_cons.1 (hf.tail_names_subset hname) with rfl | hname
  · exact n.raw.isSmallName_field
  rcases List.mem_cons.1 hname with rfl | hname
  · exact ⟨_, _, rfl, by decide, by decide⟩
  · obtain ⟨method, hmethod, rfl⟩ := List.mem_map.1 hname
    exact (hworded.named t ht method hmethod).isSmallName

namespace Generation

open Render.Java (rawClasses libraries writesConstant)

section Sources

variable {g : Generation} {name : String} {root : SchemaNode} {d d' : Drafting} {files : Render.Sources}

lemma isWritten_of_sources (hstore : d.store.Genuine) (hroot : root ∈ d.store.nodes)
    (hok : outcome (g.sources .java name root) d = (.ok files, d')) :
    ∀ t ∈ d'.model.types, Render.Java.IsWritten d'.model (libraries d'.model) t := by
  have hliteral := exists_literal?_of_sources hstore hroot hok
  obtain ⟨s, model, d₁, -, hempty, -, hpass, hmodel⟩ := exists_pass_of_sources hok
  have hsmall := Drafting.isSmallName_of_pass hstore hempty hroot hpass
  rw [← hmodel] at hsmall
  refine fun t ht => ⟨ht, hsmall t ht, fun method hmethod value hvalue => ?_⟩
  refine ⟨hliteral t ht method hmethod value hvalue, fun hneeds => ?_⟩
  have hwrites : writesConstant d'.model = true := by
    refine List.any_eq_true.2 ⟨t, ht, List.any_eq_true.2 ⟨method, hmethod, ?_⟩⟩
    rw [hvalue]
    exact hneeds
  rw [libraries, hwrites]
  decide

/-- The classes of libraries that a model names are reserved, but for that of the constants. -/
lemma eq_double_of_sources (hok : outcome (g.sources .java name root) d = (.ok files, d')) {t : WrapperType}
    (ht : t ∈ d'.model.types) (hname : t.name ∈ libraries d'.model) :
    writesConstant d'.model = true ∧ t.name = "Double" := by
  have hreserved : rawClasses ⊆ Render.Java.reservedTypes := by decide
  rcases List.mem_append.1 hname with hraw | hconstant
  · exact absurd (hreserved hraw) (not_reserved_of_sources hok t ht)
  · split at hconstant
    · next hwrites => exact ⟨hwrites, List.mem_singleton.1 hconstant⟩
    · cases hconstant

/-- Where a generation for Java succeeds, the code in its files names no classes but generated types, the classes that
raw values are taken as, and the class of the constants, which is named if a default is a number without digits. No
type has the name of one of these classes, unless a constant is written and a type has the name of its class. -/
theorem library_classes_of_sources (hstore : d.store.Genuine) (hroot : root ∈ d.store.nodes)
    (hok : outcome (g.sources .java name root) d = (.ok files, d')) :
    (∃ package, d'.model.namespaces = [package] ∧ ∀ file ∈ files, ∃ lines,
      file.2 = Render.Java.fileText (comment g.config .java g.commandLine) package lines ∧
        ∀ line ∈ lines, Render.Java.IsLine d'.model (libraries d'.model) line) ∧
      (writesConstant d'.model = true → ∃ file ∈ files, "Double.".toList <:+: file.2.toList) ∧
      ((∀ t ∈ d'.model.types, t.name ∉ libraries d'.model) ↔
        ¬ (writesConstant d'.model = true ∧ ∃ t ∈ d'.model.types, t.name = "Double")) := by
  have hwritten := isWritten_of_sources hstore hroot hok
  refine ⟨?_, fun hwrites => ?_, fun hapart => ?_, fun hnone t ht hname => ?_⟩
  · obtain ⟨_, package, -, hnamespaces, -, hfiles⟩ := told_of_sources hstore hroot hok
    obtain ⟨hnamed, hlayered, -⟩ := laidOut_of_sources hok
    obtain ⟨hmade, -⟩ := Render.Java.forall₂_of_sources
      (P := fun _ text => ∃ lines, text = Render.Java.fileText (comment g.config .java g.commandLine) package lines ∧
        ∀ line ∈ lines, Render.Java.IsLine d'.model (libraries d'.model) line)
      (fun tree htree lines hlines => ⟨lines, rfl, Render.Java.isLine_of_classLines (List.subset_append_left _ _) tree
        (fun t ht => hwritten t (d'.model.types_treesFrom _ _ (TypeTree.types_subset_allTypes htree ht))) hlines⟩)
      hnamespaces ((hlayered.nests_trees 0).nodup_names hnamed) hfiles
    refine ⟨package, hnamespaces, fun file hfile => ?_⟩
    obtain ⟨-, -, -, hlines⟩ := exists_of_forall₂ hmade.flip file hfile
    exact hlines
  · obtain ⟨t, ht, hmethods⟩ := List.any_eq_true.1 hwrites
    obtain ⟨method, hmethod, hvalues⟩ := List.any_eq_true.1 hmethods
    obtain ⟨lines, hlines, file, hfile, hshown⟩ := exists_file_of_sources hstore hroot hok t ht method hmethod
    obtain ⟨line, hline, hdouble⟩ := Render.Java.infix_double_of_methodLines hvalues hlines
    exact ⟨file, hfile, hdouble.trans (hshown line hline)⟩
  · rintro ⟨hwrites, t, ht, hname⟩
    refine hapart t ht ?_
    rw [hname, libraries, hwrites]
    decide
  · obtain ⟨hwrites, hdouble⟩ := eq_double_of_sources hok ht hname
    exact hnone ⟨hwrites, t, ht, hdouble⟩

end Sources

/-! ### Types that are named like classes of libraries -/

namespace Infinite

/-- A property with a type of its own under some key, and a number that is infinite by default. -/
def members (key : String) : Members :=
  [("type", .str "object"), ("properties", .obj
    [(key, .obj [("type", .str "object"), ("properties", .obj [("v", .obj [("type", .str "string")])])]),
      ("x", .obj [("type", .str "number"), ("default", .float (.infinite false))])])]

def store (key : String) : Store :=
  ⟨[⟨defaultUri, survey (.root defaultUri) (.obj (members key))⟩]⟩

def root (key : String) : SchemaNode :=
  .root ⟨defaultUri, [], defaultUri, defaultUri, members key⟩

def generation : Generation :=
  ⟨⟨[], ⟨[]⟩, .top⟩, {}, programName⟩

def begun (key : String) : Drafting :=
  .start (store key) (.empty [] [])

def last (key : String) : Drafting :=
  (outcome (generation.sources .java "schema" (root key)) (begun key)).2

lemma genuine (key : String) : (begun key).store.Genuine := fun load hl =>
  ⟨members key, by rw [List.mem_singleton.1 hl]⟩

lemma root_mem (key : String) : root key ∈ (begun key).store.nodes :=
  Store.mem_nodes.2 ⟨_, List.mem_singleton_self _,
    node_mem_survey (show (Position.root defaultUri).enter (members key) = .ok (root key, [(defaultUri, [])]) from rfl)⟩

lemma exists_files {key : String} (h : key = "number" ∨ key = "double") :
    ∃ files, outcome (generation.sources .java "schema" (root key)) (begun key) = (.ok files, last key) ∧
      files.length = 1 := by
  rcases h with rfl | rfl <;> exact exists_of_map_toOption (by decide +kernel)

end Infinite

/-- A type is named otherwise than the class of numbers, and so apart from all classes that the code names. -/
theorem library_classes_of_number :
    ∃ files, outcome (Infinite.generation.sources .java "schema" (Infinite.root "number")) (Infinite.begun "number") =
        (.ok files, Infinite.last "number") ∧
      (Infinite.last "number").model.types.map (·.name) = ["Schema", "Number2"] ∧
      (∃ file ∈ files, "Double.".toList <:+: file.2.toList) ∧
      ∀ t ∈ (Infinite.last "number").model.types, t.name ∉ libraries (Infinite.last "number").model := by
  obtain ⟨files, hok, -⟩ := Infinite.exists_files (.inl rfl)
  have hnames : (Infinite.last "number").model.types.map (·.name) = ["Schema", "Number2"] := by decide +kernel
  have hwrites : writesConstant (Infinite.last "number").model = true := by decide +kernel
  obtain ⟨-, hconstant, hapart⟩ := library_classes_of_sources (Infinite.genuine _) (Infinite.root_mem _) hok
  refine ⟨files, hok, hnames, hconstant hwrites, hapart.2 ?_⟩
  rintro ⟨-, t, ht, hdouble⟩
  have hmem : t.name ∈ (Infinite.last "number").model.types.map (·.name) := List.mem_map_of_mem ht
  rw [hdouble, hnames] at hmem
  exact absurd hmem (by decide)

/-- A type has the name of the class of constants, and takes it inside of the class that a constant is written in. -/
theorem double_captured :
    (∃ files, outcome (Infinite.generation.sources .java "schema" (Infinite.root "double")) (Infinite.begun "double") =
        (.ok files, Infinite.last "double") ∧ files.length = 1) ∧
      (Infinite.last "double").model.types.map (fun t => (t.name, t.methods.filterMap fun method => method.body?.map
          fun body => (Render.Java.expr (Infinite.last "double").model body).toOption)) =
        [("Schema", [some "jsonObject", some "new Schema.Double(jsonObject.getJSONObject(\"double\"))",
          some "jsonObject.has(\"double\")", some "jsonObject.optNumber(\"x\", Double.POSITIVE_INFINITY)"]),
        ("Double", [some "jsonObject", some "jsonObject.getString(\"v\")", some "jsonObject.has(\"v\")"])] ∧
      (∃ t ∈ (Infinite.last "double").model.types, t.name ∈ libraries (Infinite.last "double").model) ∧
      (Render.Java.scope (Infinite.last "double").model 0).simple? "Double" = some 1 :=
  ⟨Infinite.exists_files (.inr rfl), by decide +kernel, by decide +kernel, by decide +kernel⟩

end Generation

end SchemaAccessors
