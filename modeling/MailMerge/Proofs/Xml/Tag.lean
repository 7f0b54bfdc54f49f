import MailMerge.Proofs.Text.Calm
import MailMerge.Proofs.Xml.Content
import MailMerge.Value.Path

/-!
# Tags as they are written

A tag is written with a name and with settings: names and values, with a space before each of them.

**`markup?_opening`, `markup?_closing`**: a tag is read as the name and the settings that it was written
with, if the names are qualified names and the characters of the values are legal.
-/

namespace MailMerge.Xml

variable {t u after name : Text}

/-! ## Names -/

theorem isQualifiedChar_of_isName {c : Char} (h : isName t) (hc : c ∈ t) : isQualifiedChar c := by
  rw [isName, Bool.and_eq_true, List.all_eq_true] at h
  rw [isQualifiedChar, h.2 c hc, Bool.true_or]

theorem colon_not_mem_of_isName (h : isName t) : ':' ∉ t := by
  intro hc
  rw [isName, Bool.and_eq_true, List.all_eq_true] at h
  exact absurd (h.2 ':' hc) (by decide)

/-- A qualified name is a name, or a name behind a label that is a name too. -/
theorem isQualifiedName_iff :
    isQualifiedName t ↔ isName t ∨ ∃ label base, t = label ++ ':' :: base ∧ isName label ∧ isName base := by
  constructor
  · intro h
    unfold isQualifiedName at h
    have hjoin := Text.join_splitOn ':' t
    split at h
    · next name hs =>
      rw [hs, Text.join] at hjoin
      exact .inl (hjoin ▸ h)
    · next label base hs =>
      rw [Bool.and_eq_true] at h
      rw [hs, Text.join, Text.join, List.append_assoc] at hjoin
      · exact .inr ⟨label, base, hjoin.symm, h.1, h.2⟩
      · simp
    · cases h
  · rintro (h | ⟨label, base, rfl, hlabel, hbase⟩)
    · rw [isQualifiedName, Text.splitOn_of_notMem (colon_not_mem_of_isName h)]
      exact h
    · rw [isQualifiedName, Text.splitOn_append, Text.splitOn_of_notMem (colon_not_mem_of_isName hlabel),
        Text.splitOn_of_notMem (colon_not_mem_of_isName hbase)]
      exact Bool.and_eq_true_iff.2 ⟨hlabel, hbase⟩

theorem isQualifiedChar_of_isQualifiedName {c : Char} (h : isQualifiedName t) (hc : c ∈ t) :
    isQualifiedChar c := by
  rcases isQualifiedName_iff.1 h with h | ⟨label, base, rfl, hlabel, hbase⟩
  · exact isQualifiedChar_of_isName h hc
  · rcases List.mem_append.1 hc with hc | hc
    · exact isQualifiedChar_of_isName hlabel hc
    · rcases List.mem_cons.1 hc with rfl | hc
      · rfl
      · exact isQualifiedChar_of_isName hbase hc

theorem exists_cons_of_isQualifiedName (h : isQualifiedName t) :
    ∃ c v, t = c :: v ∧ isNameStart c := by
  have hname : ∀ {t : Text}, isName t → ∃ c v, t = c :: v ∧ isNameStart c := by
    intro t h
    rw [isName, Bool.and_eq_true] at h
    cases t with
    | nil => cases h.1
    | cons c v => exact ⟨c, v, rfl, h.1⟩
  rcases isQualifiedName_iff.1 h with h | ⟨label, base, rfl, hlabel, -⟩
  · exact hname h
  · obtain ⟨c, v, rfl, hc⟩ := hname hlabel
    exact ⟨c, v ++ ':' :: base, rfl, hc⟩

theorem not_isBlank_of_isQualifiedChar {c : Char} (h : isQualifiedChar c) : ¬ Text.isBlank c := by
  intro hc
  exact Text.forall_isBlank (P := fun c => ¬ isQualifiedChar c) (by decide +kernel) hc h

theorem not_isBlank_of_isQualifiedName (h : isQualifiedName t) : ∀ c ∈ t, ¬ Text.isBlank c :=
  fun _ hc => not_isBlank_of_isQualifiedChar (isQualifiedChar_of_isQualifiedName h hc)

/-- A qualified name is taken as a whole if no character of a name follows it. -/
theorem takeName?_of_isQualifiedName (h : isQualifiedName name)
    (hu : ∀ c ∈ u.head?, ¬ isQualifiedChar c) : takeName? (name ++ u) = some (name, u) := by
  have hall := fun c hc => isQualifiedChar_of_isQualifiedName h (c := c) hc
  have hstop : u.takeWhile isQualifiedChar = [] ∧ u.dropWhile isQualifiedChar = u := by
    cases u with
    | nil => exact ⟨rfl, rfl⟩
    | cons c u => simp [hu c rfl]
  simp [takeName?, List.takeWhile_append_of_pos hall, List.dropWhile_append_of_pos hall, hstop, h]

/-! ## Values -/

theorem value?_of_reference? {c : Char} (h : reference? t = some (.char c, [])) (u : Text) :
    value? (some '"') ('&' :: t ++ u) =
      (value? (some '"') u).map fun (ps, after) => (.char c :: ps, after) :=
  value?_reference (by decide) (reference?_append h u)

/-- A character of a value is read as it was before it was escaped. -/
theorem value?_escapeValueChar {c : Char} (hc : isLegal c) (u : Text) :
    value? (some '"') (escapeValueChar c ++ u) =
      (value? (some '"') u).map fun (ps, after) => (.char c :: ps, after) := by
  unfold escapeValueChar escapeChar
  split_ifs with h₁ h₂ h₃ h₄ h₅ h₆ h₇
  · rw [h₁]
    exact value?_of_reference? (by decide) u
  · rw [h₂]
    exact value?_of_reference? (by decide +kernel) u
  · rw [h₃]
    exact value?_of_reference? (by decide +kernel) u
  · rw [h₄]
    exact value?_of_reference? (by decide +kernel) u
  · rw [h₅]
    exact value?_of_reference? (by decide) u
  · rw [h₆]
    exact value?_of_reference? (by decide) u
  · rw [h₇]
    exact value?_of_reference? (by decide) u
  · rw [List.singleton_append, value?, if_neg (by simpa using Ne.symm h₁), if_neg h₆, if_neg h₅]
    by_cases hspace : c = ' '
    · rw [hspace]
      rfl
    · rw [if_neg (by simp [isSpace, hspace, h₂, h₃, h₄]), if_pos hc]

/-- **A value is read as it was before it was escaped.** -/
theorem value?_escapeValue (h : ∀ c ∈ t, isLegal c) (u : Text) :
    value? (some '"') (escapeValue t ++ '"' :: u) = some (t.map .char, u) := by
  induction t with
  | nil =>
    rw [escapeValue, List.flatMap_nil, List.nil_append, value?, if_pos rfl]
    rfl
  | cons c t ih =>
    have hcons : escapeValue (c :: t) = escapeValueChar c ++ escapeValue t := rfl
    rw [hcons, List.append_assoc, value?_escapeValueChar (h c List.mem_cons_self),
      ih fun d hd => h d (List.mem_cons_of_mem c hd)]
    rfl

/-- Two values that are written alike are the same. -/
theorem escapeValue_inj {s : Text} (hs : ∀ c ∈ s, isLegal c) (ht : ∀ c ∈ t, isLegal c)
    (h : escapeValue s = escapeValue t) : s = t := by
  have hread := value?_escapeValue hs []
  rw [h, value?_escapeValue ht] at hread
  have hpieces : s.map Piece.char = t.map .char := (Prod.mk.inj (Option.some.inj hread)).1.symm
  exact (List.map_inj_right fun _ _ => Piece.char.inj).1 hpieces

/-! ## Settings -/

/-- Attributes as they are written in a tag. -/
def settings (attributes : List (Text × Text)) : Text :=
  attributes.flatMap fun (name, value) => writeSetting name value

/-- The attribute has a name, and a value of legal characters. -/
def IsWritable (a : Text × Text) : Prop :=
  isQualifiedName a.1 ∧ ∀ c ∈ a.2, isLegal c

instance : DecidablePred IsWritable := fun a =>
  inferInstanceAs (Decidable (isQualifiedName a.1 ∧ ∀ c ∈ a.2, isLegal c))

theorem skipSpace_of_not {c : Char} (h : ¬ isSpace c) : skipSpace (c :: t) = c :: t :=
  List.dropWhile_cons_of_neg h

theorem not_isSpace_of_isNameStart {c : Char} (h : isNameStart c) : ¬ isSpace c := by
  intro hspace
  simp only [isSpace, Bool.or_eq_true, beq_iff_eq] at hspace
  rcases hspace with ((rfl | rfl) | rfl) | rfl <;> revert h <;> decide

theorem attribute?_writeSetting {a : Text × Text} (ha : IsWritable a) (u : Text) :
    attribute? (skipSpace (a.1 ++ '=' :: '"' :: escapeValue a.2 ++ '"' :: u)) =
      some ((a.1, a.2.map .char), u) := by
  obtain ⟨name, value⟩ := a
  obtain ⟨hname, hvalue⟩ := ha
  obtain ⟨c, v, hcons, hstart⟩ := exists_cons_of_isQualifiedName hname
  have hskip : skipSpace (name ++ '=' :: '"' :: escapeValue value ++ '"' :: u) =
      name ++ '=' :: '"' :: (escapeValue value ++ '"' :: u) := by
    dsimp only at hcons
    rw [hcons, List.cons_append, List.cons_append, skipSpace_of_not (not_isSpace_of_isNameStart hstart)]
    simp
  have htake : takeName? (name ++ '=' :: '"' :: (escapeValue value ++ '"' :: u)) =
      some (name, '=' :: '"' :: (escapeValue value ++ '"' :: u)) :=
    takeName?_of_isQualifiedName hname (by
      intro c hc
      obtain rfl := Option.some.inj hc
      decide)
  dsimp only
  rw [hskip, attribute?, htake]
  simp [skipSpace_of_not (show ¬ isSpace '=' by decide), skipSpace_of_not (show ¬ isSpace '"' by decide),
    Text.dropStart?, value?_escapeValue hvalue]

/-- The settings of a tag are read before what ends the tag. -/
theorem attributes?_settings {attributes : List (Text × Text)} {closed : Bool}
    (h : ∀ a ∈ attributes, IsWritable a) (hu : attributes? u = some ([], closed, after)) :
    attributes? (settings attributes ++ u) = some (plainAttributes attributes, closed, after) := by
  induction attributes with
  | nil => exact hu
  | cons a attributes ih =>
    have ha := attribute?_writeSetting (h a List.mem_cons_self) (settings attributes ++ u)
    have hcons : settings (a :: attributes) ++ u =
        ' ' :: (a.1 ++ '=' :: '"' :: escapeValue a.2 ++ '"' :: (settings attributes ++ u)) := by
      simp [settings, writeSetting]
    rw [hcons, @attributes?_of_attribute? _ _ ' ' _ rfl ha, ih fun b hb => h b (List.mem_cons_of_mem a hb)]
    rfl

/-! ## Tags -/

theorem markup?_of_isNameStart {c : Char} (h : isNameStart c) (t : Text) :
    markup? (c :: t) = startTag? (c :: t) := by
  have hne : ∀ d, ¬ isNameStart d → c ≠ d := fun d hd he => hd (he ▸ h)
  have h₁ : '!' ≠ c := (hne '!' (by decide)).symm
  have h₂ : c ≠ '?' := hne '?' (by decide)
  have h₃ : c ≠ '/' := hne '/' (by decide)
  simp [markup?, Text.dropStart?, h₁, h₂, h₃]

/-- A start tag, from how it ends. -/
theorem markup?_settings {attributes : List (Text × Text)} {closed : Bool}
    (hname : isQualifiedName name) (h : ∀ a ∈ attributes, IsWritable a)
    (hu : attributes? u = some ([], closed, [])) (hhead : ∀ c ∈ u.head?, ¬ isQualifiedChar c) :
    markup? (name ++ settings attributes ++ u) =
      some (.start name (plainAttributes attributes) :: if closed then [.stop name] else [], []) := by
  obtain ⟨c, v, rfl, hstart⟩ := exists_cons_of_isQualifiedName hname
  have hnext : ∀ d ∈ (settings attributes ++ u).head?, ¬ isQualifiedChar d := by
    cases attributes with
    | nil => exact hhead
    | cons a attributes =>
      intro d hd
      obtain rfl := Option.some.inj hd
      decide
  rw [List.append_assoc, List.cons_append, markup?_of_isNameStart hstart, ← List.cons_append, startTag?,
    takeName?_of_isQualifiedName hname hnext]
  simp [attributes?_settings h hu]

/-- **A start tag is read as it was written.** -/
theorem markup?_opening {attributes : List (Text × Text)} (hname : isQualifiedName name)
    (h : ∀ a ∈ attributes, IsWritable a) :
    markup? (name ++ settings attributes ++ ['>']) =
      some ([.start name (plainAttributes attributes)], []) := by
  have hend : attributes? ['>'] = some ([], false, []) := by rw [attributes?, tagEnd?]
  exact markup?_settings hname h hend (by
    intro c hc
    obtain rfl := Option.some.inj hc
    decide)

/-- **The tag of an element without content is read as it was written.** -/
theorem markup?_empty {attributes : List (Text × Text)} (hname : isQualifiedName name)
    (h : ∀ a ∈ attributes, IsWritable a) :
    markup? (name ++ settings attributes ++ [' ', '/', '>']) =
      some ([.start name (plainAttributes attributes), .stop name], []) := by
  have hend : attributes? [' ', '/', '>'] = some ([], true, []) := attributes?_of_tagEnd? rfl rfl
  exact markup?_settings hname h hend (by
    intro c hc
    obtain rfl := Option.some.inj hc
    decide)

/-- **An end tag is read as it was written.** -/
theorem markup?_closing (hname : isQualifiedName name) :
    markup? ('/' :: name ++ ['>']) = some ([.stop name], []) := by
  have hnext : ∀ c ∈ (['>'] : Text).head?, ¬ isQualifiedChar c := by
    intro c hc
    obtain rfl := Option.some.inj hc
    decide
  simp [markup?, endTag?, Text.dropStart?, takeName?_of_isQualifiedName hname hnext,
    skipSpace_of_not (show ¬ isSpace '>' by decide)]

/-! ## Line ends -/

theorem return_not_mem_of_isQualifiedName (h : isQualifiedName name) : '\r' ∉ name := fun hr =>
  absurd (isQualifiedChar_of_isQualifiedName h hr) (by decide)

theorem return_not_mem_escapeValue (t : Text) : '\r' ∉ escapeValue t := by
  intro h
  obtain ⟨c, -, hc⟩ := List.mem_flatMap.1 h
  unfold escapeValueChar escapeChar at hc
  split_ifs at hc with h₁ h₂ h₃ h₄ h₅ h₆ h₇
  all_goals first
    | exact absurd hc (by decide)
    | exact h₂ (List.mem_singleton.1 hc).symm

theorem return_not_mem_settings {attributes : List (Text × Text)}
    (h : ∀ a ∈ attributes, IsWritable a) : '\r' ∉ settings attributes := by
  intro hr
  obtain ⟨a, ha, hr⟩ := List.mem_flatMap.1 hr
  have hname := return_not_mem_of_isQualifiedName (h a ha).1
  have hvalue := return_not_mem_escapeValue a.2
  simp [writeSetting, hname, hvalue] at hr

/-! ## Elements -/

theorem splitName_append {label : Text} (h : ':' ∉ label) (base : Text) :
    Scope.splitName (label ++ ':' :: base) = (some label, base) := by
  have hcut := (Text.freeOf_singleton h).cutFirst? base
  rw [List.append_assoc, List.singleton_append] at hcut
  rw [Scope.splitName, hcut]

/-- An element with a label before its name. -/
theorem enter?_labelled {scope : Scope} {label space base : Text} (hlabel : ':' ∉ label)
    (h : scope.lookup label = some space) :
    Frame.enter? scope (label ++ ':' :: base) [] =
      some { label := label ++ ':' :: base, scope, name := { space, base }, attributes := [] } := by
  simp [Frame.enter?, Scope.enter?, Scope.elementName?, Scope.attributes?, splitName_append hlabel, h]

/-- The label before the name of an element is bound to the namespace of the element. -/
theorem name_of_enter? {scope : Scope} {label base : Text} {attributes : List (Text × Text)} {f : Frame}
    (hlabel : ':' ∉ label) (h : Frame.enter? scope (label ++ ':' :: base) attributes = some f) :
    f.scope.lookup label = some f.name.space ∧ f.name.base = base := by
  unfold Frame.enter? at h
  split at h
  · simp only [Option.bind_eq_bind, Option.bind_eq_some_iff, Option.pure_def, Option.some.injEq] at h
    obtain ⟨inner, -, name, hname, named, -, rfl⟩ := h
    rw [Scope.elementName?, splitName_append hlabel] at hname
    obtain ⟨space, hspace, rfl⟩ := Option.map_eq_some_iff.1 hname
    exact ⟨hspace, rfl⟩
  · cases h

/-- There is nothing in a new element. -/
theorem empty_of_enter? {scope : Scope} {label : Text} {attributes : List (Text × Text)} {f : Frame}
    (h : Frame.enter? scope label attributes = some f) : f.text = [] ∧ f.children = [] ∧ f.pending = [] := by
  unfold Frame.enter? at h
  split at h
  · simp only [Option.bind_eq_bind, Option.bind_eq_some_iff, Option.pure_def, Option.some.injEq] at h
    obtain ⟨inner, -, name, -, named, -, rfl⟩ := h
    exact ⟨rfl, rfl, rfl⟩
  · cases h

/-- An element with a label before its name, and with one attribute, which has a label too. -/
theorem enter?_labelled_attribute {scope : Scope} {label space base label' space' base' value : Text}
    (hlabel : ':' ∉ label) (h : scope.lookup label = some space) (hlabel' : ':' ∉ label')
    (h' : scope.lookup label' = some space') (hbinding : label' ≠ Scope.bindingLabel) :
    Frame.enter? scope (label ++ ':' :: base) [(label' ++ ':' :: base', value)] =
      some
        { label := label ++ ':' :: base, scope, name := { space, base },
          attributes := [({ space := space', base := base' }, value)] } := by
  have hbound : Scope.boundLabel? (label' ++ ':' :: base') = none := by
    rw [Scope.boundLabel?, splitName_append hlabel']
    exact if_neg hbinding
  simp [Frame.enter?, Scope.enter?, Scope.elementName?, Scope.attributes?, Scope.attributeName?,
    splitName_append hlabel, splitName_append hlabel', h, h', hbound]

namespace Enclosed

variable {d : Doctype} {scope : Scope} {attributes : List (Text × Text)} {g : Frame} {items : List Item}

/-- **An element is content if what stands between its tags is.** -/
theorem between (hd : d.rules = []) (hname : isQualifiedName name)
    (has : ∀ a ∈ attributes, IsWritable a) (hg : Frame.enter? scope name attributes = some g)
    (h : Content d g.scope t items) :
    Enclosed d scope
      ('<' :: (name ++ settings attributes ++ ['>']) ++ t ++ '<' :: ('/' :: name ++ ['>']))
      [.element (g.addAll items).element] := by
  have hr := return_not_mem_of_isQualifiedName hname
  have hs := return_not_mem_settings has
  refine element hd ⟨?_, ?_⟩ (markup?_opening hname has) (markup?_closing hname) hg h
  · simp [hr, hs]
  · simp [hr]

/-- An element without content is content. -/
theorem single (hd : d.rules = []) (hname : isQualifiedName name)
    (has : ∀ a ∈ attributes, IsWritable a) (hg : Frame.enter? scope name attributes = some g) :
    Enclosed d scope ('<' :: (name ++ settings attributes ++ [' ', '/', '>'])) [.element g.element] := by
  have hr := return_not_mem_of_isQualifiedName hname
  have hs := return_not_mem_settings has
  exact empty hd (by simp [hr, hs]) (markup?_empty hname has) hg

/-- No space is needed before the end of the tag. -/
theorem closed (hd : d.rules = []) (hname : isQualifiedName name)
    (has : ∀ a ∈ attributes, IsWritable a) (hg : Frame.enter? scope name attributes = some g) :
    Enclosed d scope ('<' :: (name ++ settings attributes ++ ['/', '>'])) [.element g.element] := by
  have hr := return_not_mem_of_isQualifiedName hname
  have hs := return_not_mem_settings has
  have hend : attributes? ['/', '>'] = some ([], true, []) := by rw [attributes?, tagEnd?]
  have htag := markup?_settings hname has hend (by
    intro c hc
    obtain rfl := Option.some.inj hc
    decide)
  exact empty hd (by simp [hr, hs]) htag hg

end Enclosed
end MailMerge.Xml
