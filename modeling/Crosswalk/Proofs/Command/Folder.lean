import Crosswalk.Command.Folder
import Crosswalk.Proofs.Outcome

/-!
# What a written file changes

A file that is written is at its place afterwards, and every other place of the system, from the
root down, holds what it held before. The folders above the file are still folders, so the file can
be read under the path that it was written to.

* `Folder.content?`: what is at a place.
* `Entry.content?_put_self`, `Entry.content?_put_of_ne`: what a put file changes, and what it
  leaves.
* `Folder.Written`, `Folder.written_of_write`: the same for a write along a path.
-/

namespace Crosswalk

/-- What is at a place: a file with its bytes, or a folder, whatever is in it. -/
inductive Content where
  | file (bytes : ByteArray)
  | folder

def Entry.content : Entry → Content
  | file bytes => .file bytes
  | folder _ => .folder

/-- What is at the place that names lead to. -/
def Entry.content? (names : List String) (e : Entry) : Option Content :=
  (e.get? names).map content

/-- What is at a place of a system, by the names that lead to it from the root. -/
def Folder.content? (root : Folder) (names : List String) : Option Content :=
  (Entry.folder root).content? names

/-! ## Entries -/

namespace Entry

variable {e inner new : Entry} {es : Folder} {name last : String} {names other above : List String}
  {bytes : ByteArray}

theorem content?_eq_folder_iff :
    e.content? names = some .folder ↔ ∃ es, e.get? names = some (folder es) := by
  unfold content?
  cases e.get? names with
  | none => simp
  | some f => cases f <;> simp [content]

theorem get?_folder_cons :
    (folder es).get? (name :: names) = (Members.get? es name).bind (get? names) := rfl

theorem get?_putEntry_self : (folder (putEntry name e es)).get? (name :: names) = e.get? names := by
  rw [get?_folder_cons, putEntry, Members.get?_put_self]
  rfl

theorem get?_putEntry_of_ne {first : String} (h : first ≠ name) :
    (folder (putEntry name e es)).get? (first :: names) = (folder es).get? (first :: names) := by
  rw [get?_folder_cons, get?_folder_cons, putEntry, Members.get?_put_of_ne h]

/-- An entry put into a folder itself. -/
theorem put_last : put new [last] (folder es) = folder (putEntry last new es) := by
  rw [put]

/-- An entry put deeper inside of a folder. -/
theorem put_inner (h : names ≠ []) (hget : Members.get? es name = some inner) :
    put new (name :: names) (folder es) = folder (putEntry name (put new names inner) es) := by
  cases names with
  | nil => exact absurd rfl h
  | cons first names => simp only [put, hget]

/-- Without a folder for it, an entry is not put anywhere. -/
theorem put_nowhere (h : names ≠ []) (hget : Members.get? es name = none) :
    put new (name :: names) (folder es) = folder es := by
  cases names with
  | nil => exact absurd rfl h
  | cons first names => simp only [put, hget]

theorem exists_put_eq_folder (new : Entry) (name : String) (names : List String) (es : Folder) :
    ∃ fs, put new (name :: names) (folder es) = folder fs := by
  by_cases hnames : names = []
  · exact ⟨_, hnames ▸ put_last⟩
  cases hget : Members.get? es name with
  | none => exact ⟨es, put_nowhere hnames hget⟩
  | some inner => exact ⟨_, put_inner hnames hget⟩

/-- An entry put into a folder is there. -/
theorem content?_put_self (h : e.content? above = some .folder) :
    content? (above ++ [last]) (put new (above ++ [last]) e) = some new.content := by
  induction above generalizing e with
  | nil =>
    obtain ⟨es, hes⟩ := content?_eq_folder_iff.mp h
    obtain rfl : e = folder es := Option.some.inj hes
    rw [List.nil_append, put_last, content?, get?_putEntry_self]
    rfl
  | cons name above ih =>
    obtain ⟨fs, hfs⟩ := content?_eq_folder_iff.mp h
    cases e with
    | file bytes => cases hfs
    | folder es =>
      rw [get?_folder_cons] at hfs
      obtain ⟨inner, hget, hinner⟩ := Option.bind_eq_some_iff.mp hfs
      have hput := ih (content?_eq_folder_iff.mpr ⟨fs, hinner⟩)
      rw [List.cons_append, put_inner (by simp) hget, content?, get?_putEntry_self]
      exact hput

/-- There is nothing below what is not a folder. -/
theorem content?_below (h : e.content? names ≠ some .folder) (hother : other ≠ []) :
    e.content? (names ++ other) = none := by
  induction names generalizing e with
  | nil =>
    cases e with
    | folder es => exact absurd rfl h
    | file bytes =>
      obtain ⟨name, rest, rfl⟩ := List.exists_cons_of_ne_nil hother
      rfl
  | cons name names ih =>
    cases e with
    | file bytes => rfl
    | folder es =>
      unfold content? at h ih ⊢
      rw [List.cons_append, get?_folder_cons]
      rw [get?_folder_cons] at h
      cases hget : Members.get? es name with
      | none => rfl
      | some inner =>
        rw [hget] at h
        exact ih h

/-- A new entry in a folder leaves what it does not change itself. -/
theorem content?_putEntry
    (h : ∀ rest, other = name :: rest → new.content? rest = (folder es).content? other) :
    (folder (putEntry name new es)).content? other = (folder es).content? other := by
  cases other with
  | nil => rfl
  | cons first rest =>
    by_cases hfirst : first = name
    · subst hfirst
      rw [← h rest rfl, content?, get?_putEntry_self]
      rfl
    · rw [content?, content?, get?_putEntry_of_ne hfirst]

/-- A file put in a place where there is no folder leaves every other place. -/
theorem content?_put_of_ne (h : e.content? names ≠ some .folder) (hne : other ≠ names) :
    content? other (put (file bytes) names e) = e.content? other := by
  induction names generalizing e other with
  | nil =>
    have hother : e.content? ([] ++ other) = none := content?_below h hne
    obtain ⟨first, rest, rfl⟩ := List.exists_cons_of_ne_nil hne
    exact hother.symm
  | cons name names ih =>
    cases e with
    | file old => rfl
    | folder es =>
      by_cases hnames : names = []
      · subst hnames
        rw [put_last]
        refine content?_putEntry ?_
        rintro rest rfl
        -- There was no folder, so there was nothing below, and there is nothing below a file.
        have hrest : rest ≠ [] := fun hnil => hne (hnil ▸ rfl)
        obtain ⟨second, others, rfl⟩ := List.exists_cons_of_ne_nil hrest
        exact (content?_below h hrest).symm
      · cases hget : Members.get? es name with
        | none => rw [put_nowhere hnames hget]
        | some inner =>
          have hinner : ∀ rest, (folder es).content? (name :: rest) = inner.content? rest := by
            intro rest
            rw [content?, get?_folder_cons, hget]
            rfl
          rw [put_inner hnames hget]
          refine content?_putEntry ?_
          rintro rest rfl
          rw [hinner] at h ⊢
          exact ih h fun heq => hne (heq ▸ rfl)

end Entry

/-! ## Paths -/

namespace Folder

variable {root after : Folder} {here front names : List String} {last path : String}
  {bytes : ByteArray}

/-- A name that leads from a folder to something in it. -/
def IsName (part : String) : Prop := part ≠ "" ∧ part ≠ "." ∧ part ≠ ".."

theorem get?_of_content? (h : root.content? names = some .folder) :
    ∃ es, (Entry.folder root).get? names = some (.folder es) := Entry.content?_eq_folder_iff.mp h

/-- A walk to a folder leads as far in every system that has the same folders, and from there to
anything in it. -/
theorem walk_into (hkeep : ∀ names, root.content? names = some .folder →
      after.content? names = some .folder)
    (hlast : IsName last) (h : walk root here (front ++ [""]) = .ok names) :
    root.content? names = some .folder ∧
      walk after here (front ++ [last]) = .ok (names ++ [last]) := by
  induction front generalizing here with
  | nil =>
    rw [List.nil_append, walk] at h
    split at h
    · cases h
    · cases h
    next es hes =>
    rw [if_pos (.inl rfl), walk] at h
    obtain rfl := Except.ok.inj h
    have hfolder : root.content? here.reverse = some .folder :=
      Entry.content?_eq_folder_iff.mpr ⟨es, hes⟩
    obtain ⟨fs, hfs⟩ := get?_of_content? (hkeep _ hfolder)
    obtain ⟨hempty, hdot, hup⟩ := hlast
    refine ⟨hfolder, ?_⟩
    rw [List.nil_append, walk, hfs]
    simp only
    rw [if_neg (by simp [hempty, hdot]), if_neg hup, walk, List.reverse_cons]
  | cons part front ih =>
    rw [List.cons_append, walk] at h
    split at h
    · cases h
    · cases h
    next es hes =>
    obtain ⟨fs, hfs⟩ := get?_of_content? (hkeep _ (Entry.content?_eq_folder_iff.mpr ⟨es, hes⟩))
    rw [List.cons_append, walk, hfs]
    simp only
    split at h
    · next hstay => rw [if_pos hstay]; exact ih h
    · next hstay =>
      rw [if_neg hstay]
      split at h
      · next hup => rw [if_pos hup]; exact ih h
      · next hup => rw [if_neg hup]; exact ih h

/-- A place for a file: a name in a folder, where there is no folder yet. -/
theorem target_eq_ok (h : root.target here path = .ok names) :
    ∃ front last above, parts path = front ++ [last] ∧ IsName last ∧ names = above ++ [last] ∧
      walk root (start here path) (front ++ [""]) = .ok above ∧
      root.content? names ≠ some .folder := by
  unfold target at h
  simp only at h
  split at h
  · cases h
  next above habove =>
  split at h
  · cases h
  next hlast =>
  simp only [not_or] at hlast
  split at h
  · cases h
  next hfolder =>
  obtain rfl := Except.ok.inj h
  -- The last part is not empty, so no part is dropped from the end of the path.
  have hback : (parts path).reverse ≠ [] := fun hnil => hlast.1 (by rw [hnil]; rfl)
  obtain ⟨last, rest, hcons⟩ := List.exists_cons_of_ne_nil hback
  rw [hcons] at habove hlast hfolder ⊢
  rw [List.headD_cons] at hlast hfolder ⊢
  rw [List.dropWhile_cons_of_neg (by simpa using hlast.1), List.tail_cons] at habove
  have hparts : parts path = rest.reverse ++ [last] := by
    rw [← List.reverse_reverse (parts path), hcons, List.reverse_cons]
  refine ⟨rest.reverse, last, above, hparts, hlast, rfl, habove, fun hnone => ?_⟩
  obtain ⟨es, hes⟩ := get?_of_content? hnone
  exact hfolder es hes

/-- A file was written along a path: it reads back, its bytes are at its place, and every other
place holds what it held before. -/
structure Written (before after : Folder) (here : List String) (path : String)
    (bytes : ByteArray) : Prop where
  reads : after.read here path = .ok bytes
  only : ∃ place, after.content? place = some (.file bytes) ∧
    ∀ other, other ≠ place → after.content? other = before.content? other

theorem written_of_write (h : root.write here path bytes = .ok after) :
    Written root after here path bytes := by
  obtain ⟨names, htarget, hafter⟩ := map_eq_ok.mp h
  obtain ⟨front, last, above, hparts, hlast, rfl, hwalk, hold⟩ := target_eq_ok htarget
  have hput : Entry.folder after = Entry.put (.file bytes) (above ++ [last]) (.folder root) := by
    rw [← hafter]
    cases habove : above ++ [last] with
    | nil => simp at habove
    | cons name names =>
      obtain ⟨es, hes⟩ := Entry.exists_put_eq_folder (.file bytes) name names root
      rw [hes]
      rfl
  have hrest : ∀ other, other ≠ above ++ [last] → after.content? other = root.content? other := by
    intro other hne
    rw [content?, hput]
    exact Entry.content?_put_of_ne hold hne
  have hkeep : ∀ names, root.content? names = some .folder →
      after.content? names = some .folder := by
    intro names hfolder
    rwa [hrest names fun heq => hold (heq ▸ hfolder)]
  -- The walk passes folders only, and these are where they were, so it leads to the new file.
  obtain ⟨hfolder, hwalk'⟩ := walk_into hkeep hlast hwalk
  have hself : after.content? (above ++ [last]) = some (.file bytes) := by
    rw [content?, hput]
    exact Entry.content?_put_self hfolder
  refine ⟨?_, above ++ [last], hself, hrest⟩
  obtain ⟨e, he, hcontent⟩ := Option.map_eq_some_iff.mp hself
  cases e with
  | folder es => cases hcontent
  | file found =>
    obtain rfl : found = bytes := Content.file.inj hcontent
    rw [read, hparts, hwalk']
    simp only [he]

end Folder

end Crosswalk
