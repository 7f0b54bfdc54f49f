import MailMerge.Proofs.Merge.Causes
import MailMerge.Proofs.Text.Calm
import MailMerge.Proofs.Text.Cut

/-!
# Fields marker by marker

What stands in place of a marker is decided by the marker alone: the markers that a text is scanned
for and the gaps between them make up the text that is filled in.

**`substitute_markerwise`**: a text is filled in marker by marker; if nothing else goes wrong, that
fails exactly at the first field that has neither a value nor a default.
-/

namespace MailMerge

open Merging (Fails Gives)

/-! ## What a marker asks for -/

namespace FieldSpec

theorem ofBody_of_trim_eq {s t : Text} (h : Text.trim s = Text.trim t) (default : Option Text) :
    ofBody s default = ofBody t default := by
  rw [ofBody, ofBody, h]

/-- Blanks around what stands between the braces do not matter. -/
theorem parse_trim (t : Text) : parse (Text.trim t) = parse t := by
  obtain ⟨a, b, ht, ha, hb⟩ := Text.exists_trim t
  have hmark : '?' ∉ a := fun h => absurd (ha '?' h) (by decide)
  have hmark' : '?' ∉ b := fun h => absurd (hb '?' h) (by decide)
  have hcut : Text.cutFirst? ['?', '?'] t = (Text.cutFirst? ['?', '?'] (Text.trim t)).map
      fun cut => (a ++ cut.1, cut.2 ++ b) := by
    conv_lhs => rw [ht]
    rw [List.append_assoc, Text.cutFirst?_append_of_notMem hmark,
      Text.cutFirst?_append_of_forall_notMem (by simp) _ (by simpa using hmark'), Option.map_map]
    rfl
  unfold parse
  rw [hcut]
  cases Text.cutFirst? ['?', '?'] (Text.trim t) with
  | none => exact ofBody_of_trim_eq (Text.trim_trim t) none
  | some p =>
    obtain ⟨body, default⟩ := p
    have hbody : Text.trim body = Text.trim (a ++ body) := by
      rw [← Text.trim_blanks ha (b := []) (by simp) body, List.append_nil]
    have hdefault : Text.trim (default ++ b) = Text.trim default :=
      Text.trim_blanks (a := []) (by simp) hb default
    simp only [Option.map_some, hdefault, ofBody_of_trim_eq hbody]

end FieldSpec

/-- What the marker asks for, if it is a field. -/
def Marker.fieldSpec (m : Marker) : FieldSpec :=
  FieldSpec.parse m.inner

theorem Marker.fieldSpec_ofInner (inner : Text) (start : Nat) :
    (ofInner inner start).fieldSpec = FieldSpec.parse inner :=
  FieldSpec.parse_trim inner

namespace Field

variable {settings : Settings} {c : Context} {withImages : Bool}

/-! ## The format of a value -/

/-- The last name of a path is what follows its last point. -/
inductive EndsIn : Text → Text → Prop
  | whole {name : Text} : '.' ∉ name → EndsIn name name
  | step {front name : Text} : '.' ∉ name → EndsIn (front ++ '.' :: name) name

theorem endsIn_lastName (path : Text) : EndsIn path (Context.lastName path) := by
  cases hc : Text.cutLast? ['.'] path with
  | none =>
    have hp := Text.cutLast?_eq_none_iff.1 hc
    rw [Context.lastName, Text.splitOn_of_notMem hp]
    exact .whole hp
  | some p =>
    obtain ⟨front, name⟩ := p
    have hp := Text.notMem_of_cutLast? hc
    rw [Text.eq_append_of_cutLast? hc, List.append_assoc, List.singleton_append, Context.lastName,
      Text.splitOn_append, Text.splitOn_of_notMem hp, List.getLastD_concat]
    exact .step hp

theorem EndsIn.lastName_eq {path name : Text} (h : EndsIn path name) :
    Context.lastName path = name := by
  cases h with
  | whole hp => rw [Context.lastName, Text.splitOn_of_notMem hp]; rfl
  | step hp =>
    rw [Context.lastName, Text.splitOn_append, Text.splitOn_of_notMem hp, List.getLastD_concat]

/-- The format that a value is written in: the one that the marker names, or else the one that the
context has for the path, or else for its last name. -/
inductive WrittenIn (c : Context) (spec : FieldSpec) : Option Text → Prop
  | named {format : Text} : spec.format = some format → WrittenIn c spec (some format)
  | ofPath {format : Text} : spec.format = none → c.fieldTypes.lookup spec.path = some format →
      WrittenIn c spec (some format)
  | ofName {name format : Text} : spec.format = none → c.fieldTypes.lookup spec.path = none →
      EndsIn spec.path name → c.fieldTypes.lookup name = some format → WrittenIn c spec (some format)
  | plain {name : Text} : spec.format = none → c.fieldTypes.lookup spec.path = none →
      EndsIn spec.path name → c.fieldTypes.lookup name = none → WrittenIn c spec none

theorem writtenIn_iff {spec : FieldSpec} {format : Option Text} :
    WrittenIn c spec format ↔ (spec.format <|> c.fieldType spec.path) = format := by
  constructor
  · intro h
    cases h with
    | named h => rw [h]; rfl
    | ofPath h hp => rw [h, Context.fieldType, hp]; rfl
    | ofName h hp hn hl => rw [h, Context.fieldType, hp, hn.lastName_eq, hl]; rfl
    | plain h hp hn hl => rw [h, Context.fieldType, hp, hn.lastName_eq, hl]; rfl
  · rintro rfl
    cases h : spec.format with
    | some format => exact .named h
    | none =>
      cases hp : c.fieldTypes.lookup spec.path with
      | some format =>
        rw [Context.fieldType, hp]
        exact .ofPath h hp
      | none =>
        rw [Context.fieldType, hp]
        cases hl : c.fieldTypes.lookup (Context.lastName spec.path) with
        | some format => exact .ofName h hp (endsIn_lastName spec.path) hl
        | none => exact .plain h hp (endsIn_lastName spec.path) hl

/-! ## The text of a value -/

/-- The value of a path, in a format or in none, is written as a text with warnings. -/
inductive Writes (settings : Settings) (path : Text) (v : Value) :
    Option Text → Text → List Warning → Prop
  | plain {t : Text} : v.toPlain = .ok t → Writes settings path v none t []
  | empty {t : Text} : v.toPlain = .ok t → Writes settings path v (some []) t []
  | known {name t : Text} {format : Format} : name ≠ [] → Format.ofName? name = some format →
      format.apply settings.currencySymbol v = .ok t → Writes settings path v (some name) t []
  | unknown {name t : Text} : name ≠ [] → Format.ofName? name = none → v.toPlain = .ok t →
      Writes settings path v (some name) t [.unknownFormat name path]

section

variable {ι : Type} {path name : Text} {v : Value}

theorem writeValue_of_format {format : Option Text} {x : Except Fault Text}
    (h : v.format settings.currencySymbol format = x.mapError .fault) :
    (writeValue settings path format v : Merging ι Text) = .ofFault x := by
  unfold writeValue
  rw [h]
  cases x <;> rfl

theorem writeValue_known {format : Format} (hn : name ≠ []) (hf : Format.ofName? name = some format) :
    (writeValue settings path (some name) v : Merging ι Text) =
      .ofFault (format.apply settings.currencySymbol v) := by
  obtain ⟨c, rest, rfl⟩ := List.exists_cons_of_ne_nil hn
  refine writeValue_of_format ?_
  simp [Value.format, hf]

theorem writeValue_unknown (hn : name ≠ []) (hf : Format.ofName? name = none) :
    (writeValue settings path (some name) v : Merging ι Text) =
      (do Merging.warn (.unknownFormat name path); .ofFault v.toPlain) := by
  obtain ⟨c, rest, rfl⟩ := List.exists_cons_of_ne_nil hn
  simp [writeValue, Value.format, hf]

theorem writeValue_eq_ok_iff {format : Option Text} {t : Text} {ws : List Warning} {is : List ι} :
    writeValue settings path format v = Except.ok (t, ⟨ws, is⟩) ↔
      Writes settings path v format t ws ∧ is = [] := by
  constructor
  · intro h
    cases format with
    | none =>
      rw [writeValue_of_format rfl, Merging.ofFault_eq_ok_iff] at h
      obtain ⟨ht, hl⟩ := h
      obtain ⟨rfl, rfl⟩ := Log.mk.inj hl
      exact ⟨.plain ht, rfl⟩
    | some name =>
      by_cases hn : name = []
      · subst hn
        rw [writeValue_of_format rfl, Merging.ofFault_eq_ok_iff] at h
        obtain ⟨ht, hl⟩ := h
        obtain ⟨rfl, rfl⟩ := Log.mk.inj hl
        exact ⟨.empty ht, rfl⟩
      · cases hf : Format.ofName? name with
        | some format =>
          rw [writeValue_known hn hf, Merging.ofFault_eq_ok_iff] at h
          obtain ⟨ht, hl⟩ := h
          obtain ⟨rfl, rfl⟩ := Log.mk.inj hl
          exact ⟨.known hn hf ht, rfl⟩
        | none =>
          rw [writeValue_unknown hn hf] at h
          obtain ⟨_, first, second, hw, ht, hl⟩ := Merging.bind_eq_ok_iff.1 h
          obtain ⟨-, rfl⟩ := Merging.report_eq_ok_iff.1 hw
          obtain ⟨hv, rfl⟩ := Merging.ofFault_eq_ok_iff.1 ht
          obtain ⟨rfl, rfl⟩ := Log.mk.inj hl
          exact ⟨.unknown hn hf hv, rfl⟩
  · rintro ⟨h, rfl⟩
    cases h with
    | plain ht | empty ht => rw [writeValue_of_format rfl, ht]; rfl
    | known hn hf ht => rw [writeValue_known hn hf, ht]; rfl
    | unknown hn hf ht => rw [writeValue_unknown hn hf, ht]; rfl

end

/-! ## The text of a field -/

/-- The text of a field, with warnings: its default if it has no value, or else its value. -/
inductive Renders (settings : Settings) (c : Context) (spec : FieldSpec) : Text → List Warning → Prop
  | default {v : Value} {default : Text} : c.resolve spec.path = .ok v → v.isMissing →
      spec.default = some default → Renders settings c spec default []
  | value {v : Value} {format : Option Text} {t : Text} {ws : List Warning} :
      c.resolve spec.path = .ok v → ¬ v.isMissing → WrittenIn c spec format →
      Writes settings spec.path v format t ws → Renders settings c spec t ws

section

variable {ι : Type} {spec : FieldSpec} {v : Value}

theorem render_of_missing (h : c.resolve spec.path = .ok v) (hv : v.isMissing) :
    (render settings c spec : Merging ι Text) =
      match spec.default with
      | some default => pure default
      | none => .fail (.unresolvedField spec.path) := by
  rw [render, h, Merging.ofFault_ok, pure_bind]
  exact if_pos hv

theorem render_of_present (h : c.resolve spec.path = .ok v) (hv : ¬ v.isMissing) :
    (render settings c spec : Merging ι Text) =
      writeValue settings spec.path (spec.format <|> c.fieldType spec.path) v := by
  rw [render, h, Merging.ofFault_ok, pure_bind, if_neg hv]

theorem render_eq_ok_iff {t : Text} {ws : List Warning} {is : List ι} :
    render settings c spec = Except.ok (t, ⟨ws, is⟩) ↔ Renders settings c spec t ws ∧ is = [] := by
  constructor
  · intro h
    cases hr : c.resolve spec.path with
    | error f =>
      rw [render, hr] at h
      cases h
    | ok v =>
      by_cases hv : v.isMissing
      · rw [render_of_missing hr hv] at h
        cases hd : spec.default with
        | none =>
          rw [hd] at h
          cases h
        | some default =>
          rw [hd] at h
          obtain ⟨rfl, hl⟩ := Merging.pure_eq_ok_iff.1 h
          obtain ⟨rfl, rfl⟩ := Log.mk.inj hl
          exact ⟨.default hr hv hd, rfl⟩
      · rw [render_of_present hr hv, writeValue_eq_ok_iff] at h
        exact ⟨.value hr hv (writtenIn_iff.2 rfl) h.1, h.2⟩
  · rintro ⟨h, rfl⟩
    cases h with
    | default hr hv hd =>
      rw [render_of_missing hr hv, hd]
      rfl
    | value hr hv hformat hw =>
      rw [render_of_present hr hv, writtenIn_iff.1 hformat]
      exact writeValue_eq_ok_iff.2 ⟨hw, rfl⟩

end

/-! ## A marker and what stands in its place -/

/-- What stands in place of a marker, with warnings: the text of a field with a path, and any other
marker itself. -/
inductive Fills (settings : Settings) (c : Context) (m : Marker) : Text × List Warning → Prop
  | kept : m.kind ≠ .field ∨ m.fieldSpec.path = [] → Fills settings c m (m.text, [])
  | rendered {t : Text} {ws : List Warning} : m.kind = .field → m.fieldSpec.path ≠ [] →
      Renders settings c m.fieldSpec t ws → Fills settings c m (t, ws)

/-- The request is that of an image marker. -/
structure Requests (c : Context) (m : Marker) (r : ImageRequest) : Prop where
  marker : r.marker = m.text
  field : r.field = m.argument
  value : ∃ v, c.resolve m.argument = .ok v ∧ r.value = if v.isMissing then .null else v

/-- The markers that request images, where these are asked for. -/
def requesting (withImages : Bool) (ms : List Marker) : List Marker :=
  if withImages then ms.filter (·.kind = .image) else []

/-- The field has neither a value nor a default. -/
def Lacks (c : Context) (m : Marker) : Prop :=
  m.kind = .field ∧ m.fieldSpec.path ≠ [] ∧ m.fieldSpec.default = none ∧
    ∃ v, c.resolve m.fieldSpec.path = .ok v ∧ v.isMissing

/-- No path of the marker is at fault, and no format of its value. -/
structure Undisturbed (settings : Settings) (c : Context) (withImages : Bool) (m : Marker) : Prop where
  image : m.kind = .image → withImages → ∃ v, c.resolve m.argument = .ok v
  field : m.kind = .field → m.fieldSpec.path ≠ [] → ∃ v, c.resolve m.fieldSpec.path = .ok v ∧
    (¬ v.isMissing → ∀ format, WrittenIn c m.fieldSpec format →
      ∃ t ws, Writes settings m.fieldSpec.path v format t ws)

section

variable {inner : Text}

theorem replace_of_field (h : (Marker.classify inner).kind = .field) :
    replace settings c withImages inner = if (FieldSpec.parse inner).path = [] then
      pure (Marker.enclose inner) else render settings c (FieldSpec.parse inner) := by
  simp only [replace, h]

theorem replace_of_image (h : (Marker.classify inner).kind = .image) :
    replace settings c withImages inner = if withImages then
      imageRequest c inner (Marker.classify inner).argument else pure (Marker.enclose inner) := by
  simp only [replace, h]

theorem replace_of_other (hf : (Marker.classify inner).kind ≠ .field)
    (hi : (Marker.classify inner).kind ≠ .image) :
    replace settings c withImages inner = pure (Marker.enclose inner) := by
  unfold replace
  dsimp only
  split
  · contradiction
  · contradiction
  · rfl

theorem requesting_append (ms ms' : List Marker) :
    requesting withImages (ms ++ ms') = requesting withImages ms ++ requesting withImages ms' := by
  unfold requesting
  split
  · exact List.filter_append ..
  · rfl

theorem imageRequest_of_resolve {field : Text} {v : Value} (h : c.resolve field = .ok v) :
    imageRequest c inner field = .report []
      [⟨Marker.enclose inner, field, if v.isMissing then .null else v⟩] (Marker.enclose inner) := by
  rw [imageRequest, h, Merging.ofFault_ok, pure_bind]

theorem imageRequest_eq_ok_iff (start : Nat) {t : Text} {ws : List Warning} {is : List ImageRequest} :
    imageRequest c inner (Marker.classify inner).argument = Except.ok (t, ⟨ws, is⟩) ↔
      (t, ws) = (Marker.enclose inner, []) ∧
        List.Forall₂ (Requests c) [Marker.ofInner inner start] is := by
  constructor
  · intro h
    cases hv : c.resolve (Marker.classify inner).argument with
    | error f =>
      rw [imageRequest, hv] at h
      cases h
    | ok v =>
      rw [imageRequest_of_resolve hv, Merging.report_eq_ok_iff] at h
      obtain ⟨rfl, hl⟩ := h
      obtain ⟨rfl, rfl⟩ := Log.mk.inj hl
      exact ⟨rfl, .cons ⟨rfl, rfl, v, hv, rfl⟩ .nil⟩
  · rintro ⟨h, hr⟩
    obtain ⟨rfl, rfl⟩ := Prod.mk.inj h
    obtain ⟨⟨marker, field, value⟩, _, ⟨rfl, rfl, v, hv, rfl⟩, hnil, rfl⟩ :=
      List.forall₂_cons_left_iff.1 hr
    obtain rfl := List.forall₂_nil_left_iff.1 hnil
    exact imageRequest_of_resolve hv

/-- A marker that is no field, or has no path, stays. -/
theorem fills_iff_of_kept {m : Marker} {p : Text × List Warning}
    (h : m.kind ≠ .field ∨ m.fieldSpec.path = []) : Fills settings c m p ↔ p = (m.text, []) := by
  constructor
  · intro hp
    cases hp with
    | kept => rfl
    | rendered hk hpath =>
      rcases h with h | h
      · exact absurd hk h
      · exact absurd h hpath
  · rintro rfl
    exact .kept h

theorem fills_iff_of_path {m : Marker} {t : Text} {ws : List Warning} (h : m.kind = .field)
    (hp : m.fieldSpec.path ≠ []) : Fills settings c m (t, ws) ↔ Renders settings c m.fieldSpec t ws := by
  constructor
  · intro hf
    cases hf with
    | kept hk => exact absurd hk (by simp [h, hp])
    | rendered _ _ hr => exact hr
  · exact .rendered h hp

theorem requesting_of_ne {m : Marker} (h : m.kind ≠ .image) : requesting withImages [m] = [] := by
  unfold requesting
  split
  · simp [h]
  · rfl

theorem pure_eq_ok_iff_kept {m : Marker} (h : m.kind ≠ .field ∨ m.fieldSpec.path = []) 
    (hr : requesting withImages [m] = []) {t : Text} {ws : List Warning}
    {is : List ImageRequest} :
    (pure m.text : Merging ImageRequest Text) = Except.ok (t, ⟨ws, is⟩) ↔
      Fills settings c m (t, ws) ∧ List.Forall₂ (Requests c) (requesting withImages [m]) is := by
  rw [Merging.pure_eq_ok_iff, fills_iff_of_kept h, hr, List.forall₂_nil_left_iff]
  simp only [Log.mk.injEq, Prod.mk.injEq, and_assoc, eq_comm]

theorem replace_eq_ok_iff (start : Nat) {t : Text} {ws : List Warning} {is : List ImageRequest} :
    replace settings c withImages inner = Except.ok (t, ⟨ws, is⟩) ↔
      Fills settings c (.ofInner inner start) (t, ws) ∧
        List.Forall₂ (Requests c) (requesting withImages [.ofInner inner start]) is := by
  have hspec := Marker.fieldSpec_ofInner inner start
  by_cases hf : (Marker.classify inner).kind = .field
  · have hrequest : requesting withImages [Marker.ofInner inner start] = [] :=
      requesting_of_ne (by rw [show (Marker.ofInner inner start).kind = _ from hf]; decide)
    rw [replace_of_field hf]
    by_cases hp : (FieldSpec.parse inner).path = []
    · rw [if_pos hp]
      exact pure_eq_ok_iff_kept (.inr (hspec ▸ hp)) hrequest
    · rw [if_neg hp, render_eq_ok_iff, fills_iff_of_path hf (hspec ▸ hp), hspec, hrequest,
        List.forall₂_nil_left_iff]
  · by_cases hi : (Marker.classify inner).kind = .image
    · rw [replace_of_image hi]
      cases withImages with
      | false => exact pure_eq_ok_iff_kept (m := .ofInner inner start) (.inl hf) rfl
      | true =>
        have hrequest : requesting true [Marker.ofInner inner start] = [.ofInner inner start] := by
          simp [requesting, Marker.ofInner, hi]
        rw [if_pos rfl, imageRequest_eq_ok_iff start, fills_iff_of_kept (.inl hf), hrequest]
        rfl
    · rw [replace_of_other hf hi]
      exact pure_eq_ok_iff_kept (m := .ofInner inner start) (.inl hf) (requesting_of_ne hi)

/-! ## Where that fails -/

theorem not_fails_of_eq_ok {ι α : Type} {x : Merging ι α} {r : α × Log ι} (h : x = Except.ok r)
    (e : MergeError) : ¬ x.Fails e :=
  Gives.not_fails (a := r.1) ⟨r.2, h⟩ e

theorem render_fails_iff {ι : Type} {spec : FieldSpec} {v : Value} {e : MergeError}
    (hv : c.resolve spec.path = .ok v)
    (hw : ¬ v.isMissing → ∀ format, WrittenIn c spec format →
      ∃ t ws, Writes settings spec.path v format t ws) :
    (render settings c spec : Merging ι Text).Fails e ↔
      (v.isMissing ∧ spec.default = none) ∧ e = .unresolvedField spec.path := by
  by_cases hm : v.isMissing
  · rw [render_of_missing hv hm]
    cases spec.default with
    | none => simp [hm, eq_comm]
    | some default => simp
  · obtain ⟨t, ws, ht⟩ := hw hm _ (writtenIn_iff.2 rfl)
    rw [render_of_present hv hm]
    have hok := writeValue_eq_ok_iff (ι := ι).2 ⟨ht, rfl⟩
    constructor
    · exact fun h => absurd h (not_fails_of_eq_ok hok e)
    · exact fun h => absurd h.1.1 hm

theorem not_lacks_of_kept {m : Marker} (h : m.kind ≠ .field ∨ m.fieldSpec.path = []) : ¬ Lacks c m := by
  rintro ⟨hk, hp, -⟩
  rcases h with h | h
  · exact h hk
  · exact hp h

theorem replace_fails_iff {start : Nat} {e : MergeError}
    (h : Undisturbed settings c withImages (.ofInner inner start)) :
    (replace settings c withImages inner).Fails e ↔ Lacks c (.ofInner inner start) ∧
      e = .unresolvedField (Marker.ofInner inner start).fieldSpec.path := by
  have hspec := Marker.fieldSpec_ofInner inner start
  by_cases hf : (Marker.classify inner).kind = .field
  · rw [replace_of_field hf]
    by_cases hp : (FieldSpec.parse inner).path = []
    · rw [if_pos hp]
      simp [not_lacks_of_kept (m := .ofInner inner start) (.inr (hspec ▸ hp))]
    · obtain ⟨v, hv, hw⟩ := h.field hf (hspec ▸ hp)
      rw [hspec] at hv hw
      rw [if_neg hp, render_fails_iff hv hw, Lacks, hspec]
      constructor
      · rintro ⟨⟨hm, hd⟩, rfl⟩
        exact ⟨⟨hf, hp, hd, v, hv, hm⟩, rfl⟩
      · rintro ⟨⟨-, -, hd, v', hv', hm⟩, rfl⟩
        rw [hv] at hv'
        exact ⟨⟨Except.ok.inj hv' ▸ hm, hd⟩, rfl⟩
  · have hlacks : ¬ Lacks c (.ofInner inner start) := not_lacks_of_kept (.inl hf)
    have hok : ∃ r, replace settings c withImages inner = Except.ok r := by
      by_cases hi : (Marker.classify inner).kind = .image
      · rw [replace_of_image hi]
        cases withImages with
        | false => exact ⟨_, rfl⟩
        | true =>
          obtain ⟨v, hv⟩ := h.image hi rfl
          exact ⟨_, imageRequest_of_resolve hv⟩
      · exact ⟨_, replace_of_other hf hi⟩
    obtain ⟨r, hr⟩ := hok
    constructor
    · exact fun hfails => absurd hfails (not_fails_of_eq_ok hr e)
    · exact fun hl => absurd hl.1 hlacks

theorem replace_gives {start : Nat} (h : Undisturbed settings c withImages (.ofInner inner start))
    (hl : ¬ Lacks c (.ofInner inner start)) : ∃ t, (replace settings c withImages inner).Gives t := by
  cases hr : replace settings c withImages inner with
  | error e => exact absurd ((replace_fails_iff h).1 hr).1 hl
  | ok r => exact ⟨r.1, r.2, rfl⟩

end

/-! ## All markers of a text -/

/-- The gaps between markers of a text from an offset on, and a piece for each marker. -/
def weave (t : Text) : Nat → List Marker → List Text → Text
  | offset, m :: ms, piece :: pieces =>
    Text.slice t offset m.start ++ piece ++ weave t m.stop ms pieces
  | offset, _, _ => t.drop offset

theorem weave_gap (before gap inner after piece : Text) (ms : List Marker) (pieces : List Text) :
    weave (before ++ (gap ++ Marker.enclose inner ++ after)) before.length
      (.ofInner inner (before.length + gap.length) :: ms) (piece :: pieces) =
      gap ++ piece ++ weave (before ++ gap ++ Marker.enclose inner ++ after)
        (before ++ gap ++ Marker.enclose inner).length ms pieces := by
  have hgap : Text.slice (before ++ (gap ++ Marker.enclose inner ++ after)) before.length
      (Marker.ofInner inner (before.length + gap.length)).start = gap :=
    Text.StandsAt.slice ⟨before, Marker.enclose inner ++ after, by simp, rfl⟩
  have hstop : (Marker.ofInner inner (before.length + gap.length)).stop =
      (before ++ gap ++ Marker.enclose inner).length := by
    simp only [Marker.ofInner, List.length_append]
  rw [weave, hstop, hgap]
  simp only [List.append_assoc]

theorem replaceSegments_eq_ok_iff (before : Text) {tail : Text} {segments : List (Text × Text)} {result : Text}
    {ws : List Warning} {is : List ImageRequest} :
    replaceSegments settings c withImages tail segments = Except.ok (result, ⟨ws, is⟩) ↔
      ∃ pieces, List.Forall₂ (Fills settings c) (Marker.locate before.length segments) pieces ∧
        result = weave (before ++ Marker.joinSegments segments tail) before.length
          (Marker.locate before.length segments) (pieces.map Prod.fst) ∧
        ws = pieces.flatMap Prod.snd ∧
        List.Forall₂ (Requests c) (requesting withImages (Marker.locate before.length segments)) is := by
  induction segments generalizing before result ws is with
  | nil =>
    constructor
    · intro h
      obtain ⟨rfl, hl⟩ := Merging.pure_eq_ok_iff.1 h
      obtain ⟨rfl, rfl⟩ := Log.mk.inj hl
      refine ⟨[], .nil, ?_, rfl, by simp [Marker.locate, requesting]⟩
      simp [weave, Marker.joinSegments, Marker.locate]
    · rintro ⟨pieces, hf, rfl, rfl, hr⟩
      obtain rfl := List.forall₂_nil_left_iff.1 hf
      obtain rfl : is = [] := by simpa [Marker.locate, requesting] using hr
      refine Merging.pure_eq_ok_iff.2 ⟨?_, rfl⟩
      simp [weave, Marker.joinSegments, Marker.locate]
  | cons s segments ih =>
    obtain ⟨gap, inner⟩ := s
    have hlocate : Marker.locate before.length ((gap, inner) :: segments) =
        [.ofInner inner (before.length + gap.length)] ++
          Marker.locate (before ++ gap ++ Marker.enclose inner).length segments := by
      simp [Marker.locate, Marker.ofInner, Nat.add_assoc]
    rw [replaceSegments, hlocate, requesting_append]
    constructor
    · intro h
      obtain ⟨piece, ⟨ws, is⟩, _, hpiece, hbind, hl⟩ := Merging.bind_eq_ok_iff.1 h
      obtain ⟨rest, ⟨ws', is'⟩, _, hrest, hpure, rfl⟩ := Merging.bind_eq_ok_iff.1 hbind
      obtain ⟨rfl, rfl⟩ := Merging.pure_eq_ok_iff.1 hpure
      rw [Merging.Log.append_empty] at hl
      obtain ⟨rfl, rfl⟩ := Log.mk.inj hl
      obtain ⟨hfills, hrequests⟩ := (replace_eq_ok_iff (before.length + gap.length)).1 hpiece
      obtain ⟨pieces, hpieces, rfl, rfl, hrequests'⟩ :=
        (ih (before ++ gap ++ Marker.enclose inner)).1 hrest
      refine ⟨(piece, ws) :: pieces, .cons hfills hpieces, ?_, rfl,
        List.rel_append hrequests hrequests'⟩
      exact (weave_gap before gap inner (Marker.joinSegments segments tail) piece _ _).symm
    · rintro ⟨pieces, hf, rfl, rfl, hr⟩
      obtain ⟨⟨piece, ws⟩, pieces, hfills, hpieces, rfl⟩ := List.forall₂_cons_left_iff.1 hf
      obtain ⟨is, is', hrequests, hrequests', rfl⟩ := Merging.forall₂_append_left hr
      refine Merging.bind_eq_ok_iff.2 ⟨piece, ⟨ws, is⟩, ⟨pieces.flatMap Prod.snd, is'⟩,
        (replace_eq_ok_iff _).2 ⟨hfills, hrequests⟩, Merging.bind_eq_ok_iff.2 ⟨_, _, {},
          (ih _).2 ⟨pieces, hpieces, rfl, rfl, hrequests'⟩, Merging.pure_eq_ok_iff.2 ⟨?_, rfl⟩,
          (Merging.Log.append_empty _).symm⟩, rfl⟩
      exact (weave_gap before gap inner (Marker.joinSegments segments tail) piece _ _).symm

theorem replaceSegments_fails_iff {tail : Text} {segments : List (Text × Text)} {offset : Nat}
    {e : MergeError} (h : ∀ m ∈ Marker.locate offset segments, Undisturbed settings c withImages m) :
    (replaceSegments settings c withImages tail segments).Fails e ↔
      ∃ before m after, Marker.locate offset segments = before ++ m :: after ∧
        (∀ m' ∈ before, ¬ Lacks c m') ∧ Lacks c m ∧ e = .unresolvedField m.fieldSpec.path := by
  induction segments generalizing offset with
  | nil =>
    simp [replaceSegments, Marker.locate]
  | cons s segments ih =>
    obtain ⟨gap, inner⟩ := s
    rw [Marker.locate, List.forall_mem_cons] at h
    obtain ⟨hm, hrest⟩ := h
    rw [replaceSegments, Merging.fails_bind_iff, replace_fails_iff hm]
    simp only [Merging.fails_bind_iff, Merging.not_fails_pure, and_false, exists_false, or_false,
      ih hrest]
    constructor
    · rintro (⟨hl, rfl⟩ | ⟨piece, hpiece, before, m, after, he, hbefore, hl, rfl⟩)
      · exact ⟨[], _, _, rfl, by simp, hl, rfl⟩
      · refine ⟨_ :: before, m, after, by rw [Marker.locate, he]; rfl, ?_, hl, rfl⟩
        rw [List.forall_mem_cons]
        refine ⟨fun hl' => ?_, hbefore⟩
        exact hpiece.not_fails _ ((replace_fails_iff hm).2 ⟨hl', rfl⟩)
    · rintro ⟨before, m, after, he, hbefore, hl, rfl⟩
      cases before with
      | nil =>
        obtain ⟨rfl, -⟩ := List.cons.inj he
        exact .inl ⟨hl, rfl⟩
      | cons m' before =>
        obtain ⟨rfl, he'⟩ := List.cons.inj he
        rw [List.forall_mem_cons] at hbefore
        obtain ⟨piece, hpiece⟩ := replace_gives hm hbefore.1
        exact .inr ⟨piece, hpiece, before, m, after, he', hbefore.2, hl, rfl⟩

/-- **Fields are filled in marker by marker.** -/
theorem substitute_markerwise (settings : Settings) (c : Context) (withImages : Bool) (t : Text) :
    (∀ result log, substitute settings c withImages t = Except.ok (result, log) ↔
      ∃ pieces, List.Forall₂ (Fills settings c) (Marker.scan t) pieces ∧
        result = weave t 0 (Marker.scan t) (pieces.map Prod.fst) ∧
        log.warnings = pieces.flatMap Prod.snd ∧
        List.Forall₂ (Requests c) (requesting withImages (Marker.scan t)) log.images) ∧
    ((∀ m ∈ Marker.scan t, Undisturbed settings c withImages m) → ∀ e,
      (substitute settings c withImages t).Fails e ↔
        ∃ before m after, Marker.scan t = before ++ m :: after ∧ (∀ m' ∈ before, ¬ Lacks c m') ∧
          Lacks c m ∧ e = .unresolvedField m.fieldSpec.path) := by
  have hjoin := Marker.segments_join t
  constructor
  · rintro result ⟨ws, is⟩
    have := @replaceSegments_eq_ok_iff settings c withImages [] (Marker.segments t).2 (Marker.segments t).1 result
      ws is
    rwa [hjoin, List.nil_append] at this
  · exact fun h e => replaceSegments_fails_iff h

/-- An address without a city: only the name and the default are there. -/
theorem substitute_markerwise_address :
    (substitute {} { data := [("Name", .text "Ann")] } true "{{Name}}, {{City}}, {{Land ?? USA}}").Fails
      (.unresolvedField "City") := by
  have hscan : Marker.scan "{{Name}}, {{City}}, {{Land ?? USA}}" =
      [.ofInner "Name" 0, .ofInner "City" 10, .ofInner "Land ?? USA" 20] := by
    decide +kernel
  refine ((substitute_markerwise _ _ _ _).2 ?_ _).2 ⟨[.ofInner "Name" 0], .ofInner "City" 10, _, hscan,
    ?_, ⟨by decide, by decide, by decide, .unresolved, rfl, rfl⟩, ?_⟩
  · rw [hscan]
    simp only [List.forall_mem_cons]
    refine ⟨⟨fun h => absurd h (by decide), fun _ _ => ⟨.text "Ann", rfl, fun _ format h => ?_⟩⟩,
      ⟨fun h => absurd h (by decide), fun _ _ => ⟨.unresolved, rfl, fun h => absurd rfl h⟩⟩,
      ⟨fun h => absurd h (by decide), fun _ _ => ⟨.unresolved, rfl, fun h => absurd rfl h⟩⟩, by simp⟩
    obtain rfl := writtenIn_iff.1 h
    exact ⟨"Ann", [], .plain rfl⟩
  · rw [List.forall_mem_singleton]
    rintro ⟨-, -, -, v, hv, hm⟩
    obtain rfl := Except.ok.inj hv
    cases hm
  · rfl

end Field
end MailMerge
