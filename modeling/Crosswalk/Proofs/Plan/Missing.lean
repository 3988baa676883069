import Crosswalk.Proofs.Outcome
import Crosswalk.Proofs.Plan.Writes

/-!
# Missing values on their way

What is missing at the source of a link is missing at its end, and so is what the transform of the
link gives up, wherever the transform stands among the conversions. There is one exception among the
links with a standard format: a JSON text is made of everything, so a value that the transform gave
up on the way to the right arrives as the text `null`.

* `Link.HasStandardFormat`: no format, or one that the standard registry knows by its name.
* `Link.Drops`: the transform makes `undefined` of what reaches it.
* `Link.convert_eq_undefined_iff`: exactly what is missing at the end of a link.
* `Link.missing_stays`: what a link leaves of the document that is being made.
-/

namespace Crosswalk

open Value

/-- The format of a link, if it has one, is what the standard registry knows by its name. -/
def Link.HasStandardFormat (l : Link) : Prop :=
  ∀ name c, l.format = some (name, c) → Registry.standard.get? name = some c

/-- What the transform of a link is given on the way of a value: to the right the value itself, to
the left what the format makes of it. -/
def Link.transformInput (l : Link) : Direction → Value → Outcome Value
  | .toRight, v => .ok v
  | .toLeft, v => l.applyFormat .toLeft v

/-- The transform of a link makes `undefined` of what it is given on the way of a value. -/
def Link.Drops (l : Link) (d : Direction) (v : Value) : Prop :=
  ∃ c w, l.transform = some c ∧ l.transformInput d v = .ok w ∧ c.apply d w = .ok undefined

/-- A JSON text is the last thing that is made of a value. -/
def Link.endsInJson (l : Link) (d : Direction) : Bool :=
  d = .toRight ∧ l.format.map Prod.fst = some "json"

/-! ## The standard converters -/

theorem Number.toValue_ne_undefined (n : Number) : n.toValue ≠ undefined := by
  unfold Number.toValue
  split
  · split <;> simp
  · simp
  · simp

theorem Json.toValue_ne_undefined (j : Json) : j.toValue ≠ undefined := by
  cases j <;> simp [Json.toValue, Number.toValue_ne_undefined]

namespace Converter

variable {c : Converter} {name : String} {v w : Value}

theorem standard_get? : Registry.standard.get? name = some c ↔
    name = "string" ∧ c = scalarText ∨ name = "json" ∧ c = jsonText := by
  have hentries : Registry.standard.entries = [("string", scalarText), ("json", jsonText)] := rfl
  rw [Registry.get?, hentries, Members.get?_cons, Members.get?_cons, Members.get?_nil]
  by_cases hstring : "string" = name
  · subst hstring
    simp [eq_comm]
  · rw [if_neg hstring]
    by_cases hjson : "json" = name
    · subst hjson
      simp [eq_comm]
    · simp [hjson, Ne.symm hstring, Ne.symm hjson]

theorem writeScalar_eq_undefined_iff : writeScalar v = .ok undefined ↔ v = undefined := by
  cases v <;> simp [writeScalar]

theorem scalarOfText_ne_undefined (s : String) : scalarOfText s ≠ undefined := by
  unfold scalarOfText
  split
  · simp
  split
  · simp
  split
  · simp
  split <;> simp

theorem readScalar_eq_undefined_iff : readScalar v = .ok undefined ↔ v = undefined := by
  cases v <;> simp [readScalar, scalarOfText_ne_undefined]

theorem readJson_eq_undefined_iff : readJson v = .ok undefined ↔ v = undefined := by
  cases v with
  | string s =>
    simp only [readJson, reduceCtorEq, iff_false]
    split
    · next j _ => simpa using Json.toValue_ne_undefined j
    · simp
    · simp
  | _ => simp [readJson]

theorem writeJson_undefined : writeJson undefined = .ok (string "null") := by
  rw [writeJson, Json.ofValue, Json.compact]

/-- Only JSON texts are made of what is missing, and nothing else becomes missing. -/
theorem apply_eq_undefined_iff {d : Direction} (h : Registry.standard.get? name = some c) :
    c.apply d v = .ok undefined ↔ v = undefined ∧ ¬ (d = .toRight ∧ name = "json") := by
  rcases standard_get?.mp h with ⟨rfl, rfl⟩ | ⟨rfl, rfl⟩
  · cases d with
    | toRight => simp [apply, scalarText, writeScalar_eq_undefined_iff]
    | toLeft => simp [apply, scalarText, readScalar_eq_undefined_iff]
  · cases d with
    | toRight => simp [apply, jsonText, writeJson]
    | toLeft => simp [apply, jsonText, readJson_eq_undefined_iff]

end Converter

/-! ## One link -/

namespace Link

variable {l : Link} {d : Direction} {document target v w : Value}

theorem applyTransform_eq_ok_iff : l.applyTransform d v = .ok w ↔
    l.transform = none ∧ w = v ∨ ∃ c, l.transform = some c ∧ c.apply d v = .ok w := by
  unfold applyTransform
  cases l.transform with
  | none => simp [eq_comm]
  | some c => cases hc : c.apply d v <;> simp [hc]

theorem applyFormat_eq_undefined_iff (h : l.HasStandardFormat) :
    l.applyFormat d v = .ok undefined ↔ v = undefined ∧ l.endsInJson d = false := by
  unfold applyFormat endsInJson
  cases hformat : l.format with
  | none => simp
  | some named =>
    obtain ⟨name, c⟩ := named
    have hiff := Converter.apply_eq_undefined_iff (d := d) (v := v) (h name c hformat)
    cases hc : c.apply d v with
    | ok w => simpa [hc] using hiff
    | error m => simpa [hc] using hiff

theorem convert_eq_ok_iff (hv : v ≠ undefined) : l.convert d v = .ok w ↔
    match d with
    | .toRight => ∃ u, l.applyTransform .toRight v = .ok u ∧ l.applyFormat .toRight u = .ok w
    | .toLeft => ∃ u, l.applyFormat .toLeft v = .ok u ∧ l.applyTransform .toLeft u = .ok w := by
  have hdefined : ¬ v.isUndefined = true := by simpa using hv
  unfold convert
  rw [if_neg hdefined]
  cases d with
  | toRight => exact bind_eq_ok
  | toLeft => exact bind_eq_ok

theorem Drops.applyTransform (h : l.Drops .toRight v) :
    l.applyTransform .toRight v = .ok undefined := by
  obtain ⟨c, w, hc, hw, hgone⟩ := h
  obtain rfl : v = w := Except.ok.inj hw
  exact applyTransform_eq_ok_iff.mpr (.inr ⟨c, hc, hgone⟩)

/-- What is missing at the end of a link: what was missing at its source, and what its transform
gave up, except where a JSON text is made of it. -/
theorem convert_eq_undefined_iff (h : l.HasStandardFormat) : l.convert d v = .ok undefined ↔
    v = undefined ∨ l.Drops d v ∧ l.endsInJson d = false := by
  by_cases hv : v = undefined
  · simp [hv, convert, isUndefined]
  rw [convert_eq_ok_iff hv, or_iff_right hv]
  cases d with
  | toRight =>
    constructor
    · rintro ⟨u, htransform, hformat⟩
      obtain ⟨rfl, hjson⟩ := (applyFormat_eq_undefined_iff h).mp hformat
      refine ⟨?_, hjson⟩
      rcases applyTransform_eq_ok_iff.mp htransform with ⟨-, hsame⟩ | ⟨c, hc, hgone⟩
      · exact absurd hsame.symm hv
      · exact ⟨c, v, hc, rfl, hgone⟩
    · rintro ⟨hdrops, hjson⟩
      exact ⟨undefined, hdrops.applyTransform,
        (applyFormat_eq_undefined_iff h).mpr ⟨rfl, hjson⟩⟩
  | toLeft =>
    have hjson : l.endsInJson .toLeft = false := by simp [endsInJson]
    constructor
    · rintro ⟨u, hformat, htransform⟩
      refine ⟨?_, hjson⟩
      rcases applyTransform_eq_ok_iff.mp htransform with ⟨-, rfl⟩ | ⟨c, hc, hgone⟩
      · -- Without a transform the format alone would have lost the value.
        exact absurd ((applyFormat_eq_undefined_iff h).mp hformat).1 hv
      · exact ⟨c, u, hc, hformat, hgone⟩
    · rintro ⟨⟨c, u, hc, hu, hgone⟩, -⟩
      exact ⟨u, hu, applyTransform_eq_ok_iff.mpr (.inr ⟨c, hc, hgone⟩)⟩

/-- Of a value that the transform gave up, the JSON text of nothing is made. -/
theorem convert_of_drops_of_endsInJson (h : l.HasStandardFormat) (hv : v ≠ undefined)
    (hdrops : l.Drops d v) (hjson : l.endsInJson d) : l.convert d v = .ok (string "null") := by
  simp only [endsInJson, Option.map_eq_some_iff, decide_eq_true_eq] at hjson
  obtain ⟨rfl, ⟨name, c⟩, hformat, rfl⟩ := hjson
  obtain ⟨hname, -⟩ | ⟨-, rfl⟩ := Converter.standard_get?.mp (h _ _ hformat)
  · simp at hname
  refine (convert_eq_ok_iff hv).mpr ⟨undefined, hdrops.applyTransform, ?_⟩
  simp only [applyFormat, hformat, Converter.apply, Converter.jsonText,
    Converter.writeJson_undefined]

theorem apply_of_convert (hconvert : l.convert d ((l.ends d).1.read document) = .ok v) :
    l.apply d document target
      = .ok (if (l.ends d).2.isPath then inject (l.destination d) target v else target) := by
  cases hpath : (l.ends d).2.isPath with
  | true =>
    rw [apply_of_isPath hpath, hconvert]
    rfl
  | false =>
    rw [apply_of_not_isPath hpath]
    rfl

/-- The source of a link is missing, or its transform gives up what it is given and no JSON text is
made of that. -/
def IsMissing (l : Link) (d : Direction) (document : Value) : Prop :=
  (l.ends d).1.read document = undefined ∨
    l.Drops d ((l.ends d).1.read document) ∧ l.endsInJson d = false

/-- A link with no format or a standard one leaves the document that is being made as it was if its
source is missing or its transform gives up what it is given, in either direction. Only where a JSON
text is made of what a transform gave up, the text `null` is written. Nothing else than what is left
out in this way is missing at the end of a link. -/
theorem missing_stays (h : l.HasStandardFormat) (d : Direction) (document : Value) :
    (l.IsMissing d document → ∀ target, l.apply d document target = .ok target) ∧
    ((l.ends d).1.read document ≠ undefined → l.Drops d ((l.ends d).1.read document) →
      l.endsInJson d → ∀ target, l.apply d document target = .ok
        (if (l.ends d).2.isPath then inject (l.destination d) target (string "null")
          else target)) ∧
    (l.convert d ((l.ends d).1.read document) = .ok undefined ↔ l.IsMissing d document) := by
  refine ⟨fun hmissing target => ?_, fun hv hdrops hjson target => ?_,
    convert_eq_undefined_iff h⟩
  · rw [apply_of_convert ((convert_eq_undefined_iff h).mpr hmissing), inject_undefined, ite_self]
  · exact apply_of_convert (convert_of_drops_of_endsInJson h hv hdrops hjson)

/-! ## A label that is given up -/

/-- A label whose transform gives up everything, as a JSON text on the right. -/
def droppedLabel : Link where
  index := 0
  left := .path (.ofSegments [.field "label"])
  right := .path (.ofSegments [.field "text"])
  transform := some ⟨fun _ => .ok undefined, fun _ => .ok undefined⟩
  format := some ("json", Converter.jsonText)

theorem droppedLabel_hasStandardFormat : droppedLabel.HasStandardFormat := by
  rintro name c ⟨⟩
  exact Converter.standard_get?.mpr (.inr ⟨rfl, rfl⟩)

theorem droppedLabel_read :
    (droppedLabel.ends .toRight).1.read (map [("label", int 7)]) = int 7 := by
  simp [droppedLabel, ends, Side.read, extract, fan, member, members, Members.get?]

theorem droppedLabel_drops (v : Value) : droppedLabel.Drops .toRight v :=
  ⟨_, v, rfl, rfl, rfl⟩

theorem droppedLabel_inject :
    inject (droppedLabel.destination .toRight) (map []) (string "null")
      = map [("text", string "null")] := by
  simp [droppedLabel, destination, ends, Side.segments, inject, spread, member, members,
    Members.get?, writeField, Members.put, isUndefined]

/-- The label is written as `null`, and without a label nothing is. -/
theorem missing_stays_droppedLabel : droppedLabel.HasStandardFormat ∧
    droppedLabel.Drops .toRight (int 7) ∧
    droppedLabel.apply .toRight (map [("label", int 7)]) (map [])
      = .ok (map [("text", string "null")]) ∧
    droppedLabel.IsMissing .toRight (map []) ∧
    droppedLabel.apply .toRight (map []) (map []) = .ok (map []) := by
  have hread := droppedLabel_read
  have hmissing : droppedLabel.IsMissing .toRight (map []) := .inl <| by
    simp [droppedLabel, ends, Side.read, extract, fan, member, members]
  have hwritten := (missing_stays droppedLabel_hasStandardFormat .toRight
    (map [("label", int 7)])).2.1 (by simp [hread]) (droppedLabel_drops _) (by decide) (map [])
  refine ⟨droppedLabel_hasStandardFormat, droppedLabel_drops _, ?_, hmissing,
    (missing_stays droppedLabel_hasStandardFormat .toRight (map [])).1 hmissing (map [])⟩
  rw [hwritten, droppedLabel_inject]
  rfl

/-- What a transform gives up does not always stay missing: its JSON text is written. -/
theorem not_missing_stays : ¬ ∀ (l : Link) (d : Direction) (document target : Value),
    l.HasStandardFormat →
    ((l.ends d).1.read document = undefined ∨ l.Drops d ((l.ends d).1.read document)) →
      l.apply d document target = .ok target := by
  intro h
  have hkept := h droppedLabel .toRight (map [("label", int 7)]) (map [])
    droppedLabel_hasStandardFormat (.inr (droppedLabel_drops _))
  rw [apply_of_convert (convert_of_drops_of_endsInJson droppedLabel_hasStandardFormat
    (by simp [droppedLabel_read]) (droppedLabel_drops _) (by decide)), droppedLabel_inject] at hkept
  simp [droppedLabel, ends, Side.isPath] at hkept

end Link

end Crosswalk
