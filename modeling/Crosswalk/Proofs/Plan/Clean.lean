import Crosswalk.Proofs.Outcome
import Crosswalk.Proofs.Path.Clean
import Crosswalk.Proofs.Plan.Writes

/-!
# Clean values through plans

A plan whose literals are clean and whose converters keep values clean makes clean documents of
clean ones, and never `undefined`. The document that it makes begins as a map, and a link that has
nothing to bring leaves it.

* `Converter.KeepsClean`, `Plan.KeepsClean`: what is asked of a plan.
* `Link.clean_apply`, `clean_applyLinks`: what each link keeps, and with it a run.
* `clean_operations`: reading, writing, merging and running.
-/

namespace Crosswalk

open Value

/-- A converter makes clean values of clean ones, in both directions. -/
def Converter.KeepsClean (c : Converter) : Prop :=
  ∀ d v w, v.Clean → c.apply d v = .ok w → w.Clean

/-- The literals of a link are clean and its converters keep values clean. -/
structure Link.KeepsClean (l : Link) : Prop where
  left : ∀ v, l.left = .literal v → v.Clean
  right : ∀ v, l.right = .literal v → v.Clean
  transform : ∀ c, l.transform = some c → c.KeepsClean
  format : ∀ name c, l.format = some (name, c) → c.KeepsClean

def Plan.KeepsClean (p : Plan) : Prop := ∀ l ∈ p.links, l.KeepsClean

/-! ## Converters -/

theorem Converter.scalarText_keepsClean : scalarText.KeepsClean := by
  intro d v w hv h
  cases d with
  | toRight =>
    replace h : writeScalar v = .ok w := h
    unfold writeScalar at h
    split at h <;> cases h <;> simp [hv]
  | toLeft =>
    replace h : readScalar v = .ok w := h
    unfold readScalar at h
    split at h
    · next s =>
      obtain rfl := Except.ok.inj h
      unfold scalarOfText
      split
      · exact clean_int _
      split
      · exact clean_float _
      split
      · exact clean_bool _
      split
      · exact clean_bool _
      · exact clean_string _
    · obtain rfl := Except.ok.inj h
      exact hv

/-- Values read from JSON texts are clean whatever the texts are. -/
theorem Converter.jsonText_keepsClean : jsonText.KeepsClean := by
  intro d v w hv h
  cases d with
  | toRight =>
    obtain rfl := Except.ok.inj (show writeJson v = .ok w from h)
    exact clean_string _
  | toLeft =>
    replace h : readJson v = .ok w := h
    unfold readJson at h
    split at h
    · split at h
      · next j _ =>
        obtain rfl := Except.ok.inj h
        exact j.clean_toValue.2
      all_goals cases h
    · obtain rfl := Except.ok.inj h
      exact clean_undefined
    · cases h

/-! ## Links -/

section Runs

variable {l : Link} {links : List Link} {d : Direction} {document target result v w : Value}

theorem Side.clean_read {s : Side} (hs : ∀ v, s = .literal v → v.Clean) (hv : document.Clean) :
    (s.read document).Clean := by
  cases s with
  | path p => exact clean_extract hv
  | literal v => exact hs v rfl

theorem Link.KeepsClean.source (h : l.KeepsClean) (hv : document.Clean) :
    ((l.ends d).1.read document).Clean := by
  cases d with
  | toRight => exact Side.clean_read h.left hv
  | toLeft => exact Side.clean_read h.right hv

theorem Link.KeepsClean.applyTransform (h : l.KeepsClean) (hv : v.Clean)
    (hok : l.applyTransform d v = .ok w) : w.Clean := by
  unfold Link.applyTransform at hok
  split at hok
  · exact Except.ok.inj hok ▸ hv
  · next c hc =>
    split at hok
    · next x hx => exact Except.ok.inj hok ▸ h.transform c hc d v x hv hx
    · cases hok

theorem Link.KeepsClean.applyFormat (h : l.KeepsClean) (hv : v.Clean)
    (hok : l.applyFormat d v = .ok w) : w.Clean := by
  unfold Link.applyFormat at hok
  split at hok
  · exact Except.ok.inj hok ▸ hv
  · next name c hc =>
    split at hok
    · next x hx => exact Except.ok.inj hok ▸ h.format name c hc d v x hv hx
    · cases hok

theorem Link.KeepsClean.convert (h : l.KeepsClean) (hv : v.Clean)
    (hok : l.convert d v = .ok w) : w.Clean := by
  unfold Link.convert at hok
  split at hok
  · exact Except.ok.inj hok ▸ hv
  cases d with
  | toRight =>
    obtain ⟨x, hx, hw⟩ := bind_eq_ok.mp hok
    exact h.applyFormat (h.applyTransform hv hx) hw
  | toLeft =>
    obtain ⟨x, hx, hw⟩ := bind_eq_ok.mp hok
    exact h.applyTransform (h.applyFormat hv hx) hw

/-- A link leaves a clean, defined document clean and defined. -/
theorem Link.clean_apply (h : l.KeepsClean) (hv : document.Clean) (ht : target.Clean)
    (hdef : target ≠ undefined) (hok : l.apply d document target = .ok result) :
    result.Clean ∧ result ≠ undefined := by
  have hsource := h.source (d := d) hv
  unfold Link.apply at hok
  split at hok
  · exact Except.ok.inj hok ▸ ⟨ht, hdef⟩
  · next source p hends =>
    rw [hends] at hsource
    obtain ⟨w, hw, rfl⟩ := map_eq_ok.mp hok
    refine ⟨clean_inject ht (h.convert hsource hw), ?_⟩
    -- What has nothing to write leaves the target, which is defined.
    by_cases hnone : w = undefined
    · rwa [hnone, inject_undefined]
    · exact inject_ne_undefined hnone

/-- A run of links leaves a clean, defined document clean and defined. -/
theorem clean_applyLinks (h : ∀ l ∈ links, l.KeepsClean) (hv : document.Clean) (ht : target.Clean)
    (hdef : target ≠ undefined) (hok : applyLinks d document target links = .ok result) :
    result.Clean ∧ result ≠ undefined := by
  induction links generalizing target with
  | nil =>
    obtain rfl := Except.ok.inj hok
    exact ⟨ht, hdef⟩
  | cons l links ih =>
    obtain ⟨hl, hlinks⟩ := List.forall_mem_cons.mp h
    obtain ⟨next, hnext, hrest⟩ := applyLinks_cons_eq_ok_iff.mp hok
    obtain ⟨hclean, hdefined⟩ := l.clean_apply hl hv ht hdef hnext
    exact ih hlinks hclean hdefined hrest

/-- What a plan makes of a clean document is clean and not `undefined`. -/
theorem Plan.KeepsClean.run {p : Plan} {overrides : Option Value} (h : p.KeepsClean)
    (hv : document.Clean) (ho : ∀ o, overrides = some o → o.Clean)
    (hok : p.run d overrides document = .ok result) : result.Clean ∧ result ≠ undefined := by
  obtain ⟨made, hmade, rfl⟩ := map_eq_ok.mp hok
  obtain ⟨hclean, hdef⟩ := clean_applyLinks (fun l hl => h l (Plan.mem_along.mp hl)) hv
    (by simp) (by simp) hmade
  cases overrides with
  | none => exact ⟨hclean, hdef⟩
  | some o => exact ⟨hclean.merge (ho o rfl), fun hnone => hdef (merge_eq_undefined_iff.mp hnone).1⟩

end Runs

/-! ## All operations -/

/-- No operation on clean values brings `undefined` into a map: neither reads and writes along paths
and through single segments, nor patches, nor plans with clean literals and converters that keep
values clean. What such a plan makes is not `undefined` itself either. -/
theorem clean_operations :
    (∀ (p : List Segment) (document : Value), document.Clean → (extract p document).Clean) ∧
    (∀ (s : Segment) (v : Value), v.Clean → (s.read v).Clean) ∧
    (∀ (s : Segment) (v w : Value), v.Clean → w.Clean → (s.write v w).Clean) ∧
    (∀ (p : List Segment) (v w : Value), v.Clean → w.Clean → (inject p v w).Clean) ∧
    (∀ v patch : Value, v.Clean → patch.Clean → (v.merge patch).Clean) ∧
    ∀ (p : Plan) (d : Direction) (document : Value) (overrides : Option Value) (result : Value),
      p.KeepsClean → document.Clean → (∀ o, overrides = some o → o.Clean) →
        p.run d overrides document = .ok result → result.Clean ∧ result ≠ undefined :=
  ⟨fun _ _ hv => clean_extract hv, fun s _ hv => s.clean_read hv,
    fun s _ _ hv hw => s.clean_write hv hw, fun _ _ _ hv hw => clean_inject hv hw,
    fun _ _ hv hp => hv.merge hp, fun _ _ _ _ _ h hv ho hok => h.run hv ho hok⟩

/-! ## A literal and two converters -/

/-- An age as a text, and a literal as a JSON text. -/
def ageLabels : Plan where
  links := [⟨0, .path (.ofSegments [.field "age"]), .path (.ofSegments [.field "label"]),
      some Converter.scalarText, none⟩,
    ⟨1, .literal (map [("version", int 1)]), .path (.ofSegments [.field "meta"]), none,
      some ("json", Converter.jsonText)⟩]
  order := .declared

/-- An age beside an array with nothing in it at the first position. -/
def agedDocument : Value := map [("age", int 36), ("tags", array [undefined, string "author"])]

theorem ageLabels_keepsClean : ageLabels.KeepsClean := by
  intro l hl
  rcases List.mem_cons.mp hl with rfl | hl
  · exact ⟨by simp, by simp, by rintro _ ⟨⟩; exact Converter.scalarText_keepsClean, by simp⟩
  · obtain rfl := List.mem_singleton.mp hl
    exact ⟨by simp, by simp, by simp, by rintro _ _ ⟨⟩; exact Converter.jsonText_keepsClean⟩

theorem ageLabels_run (overrides : Option Value) :
    ∃ result, ageLabels.run .toRight overrides agedDocument = .ok result := by
  simp [ageLabels, agedDocument, Plan.run, Plan.along, OrderPolicy.along, OrderPolicy.declared,
    Order.arrange, applyLinks, Link.apply, Link.ends, Link.convert, Link.applyTransform,
    Link.applyFormat, Side.read, extract, fan, member, members, Members.get?, isUndefined,
    Except.bind, Except.map, Converter.apply, Converter.scalarText, Converter.jsonText,
    Converter.writeScalar, Converter.writeJson]

theorem clean_operations_ageLabels : ageLabels.KeepsClean ∧ agedDocument.Clean ∧
    ∃ result, ageLabels.run .toRight (some (map [("note", null)])) agedDocument = .ok result ∧
      result.Clean ∧ result ≠ undefined := by
  have hdocument : agedDocument.Clean := by simp [agedDocument]
  obtain ⟨result, hresult⟩ := ageLabels_run (some (map [("note", null)]))
  obtain ⟨-, -, -, -, -, hrun⟩ := clean_operations
  refine ⟨ageLabels_keepsClean, hdocument, result, hresult, ?_⟩
  exact hrun ageLabels .toRight agedDocument _ result ageLabels_keepsClean hdocument
    (by rintro o ⟨⟩; simp) hresult

end Crosswalk
