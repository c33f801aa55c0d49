import FlightFit.Proofs.Outcome

/-!
Module: FlightFit.Proofs.Files
Purpose: What files hold before and after a change of the store. A path that leads to a file, or to where
  one can be, leads to the key that it names, and does so in every store that has the folders on the way.
  So a file is read as it was written, and the files under other keys are read as before; making folders
  changes no file.
Main exports: Path.key, Store.Leads, Store.Leads.transfer, Store.leads_of_walk, Store.read_eq_ok_iff,
  Store.read_of_write, Store.readText_of_read, Store.readText_of_write, Store.Retains, Store.retains_of_write,
  Store.retains_makeFolders
-/

namespace FlightFit

/-! ### The key that a path names -/

namespace Path

/-- The key that the pieces of a path name, taken from a folder. -/
def keyFrom (key : List String) : List String → List String
  | [] => key
  | piece :: rest =>
    if isIdle piece then keyFrom key rest
    else if piece == ".." then keyFrom (Store.above key) rest
    else keyFrom (key ++ [piece]) rest

/-- The folder in which a path starts. -/
def origin (path : String) : List String := if isAbsolute path then ["/"] else []

/-- The key that a path names. -/
def key (path : String) : List String := keyFrom (origin path) (pieces path)

/-- Empty pieces name nothing. -/
theorem keyFrom_of_all_empty (key : List String) {rest : List String} (h : rest.all (· == "") = true) :
    keyFrom key rest = key := by
  induction rest with
  | nil => rfl
  | cons piece rest ih =>
      rw [List.all_cons, Bool.and_eq_true] at h
      have hidle : isIdle piece = true := by rw [isIdle, h.1, Bool.true_or]
      rw [keyFrom, if_pos hidle, ih h.2]

/-- A path that a store looks at. -/
structure Usable (path : String) : Prop where
  plain : ¬path.toList.contains '\x00' = true
  given : ¬(path == "") = true
  short : ¬Store.pathLimit < path.utf8ByteSize

end Path

namespace Store

/-! ### Entries -/

theorem isTop_of_find? {s : Store} {key : List String} (h : s.find? key ≠ some .folder) : isTop key = false := by
  apply Bool.eq_false_iff.2
  intro htop
  exact h (if_pos htop)

theorem find?_put_self {s : Store} {key : List String} (h : s.find? key ≠ some .folder) (entry : Entry) :
    (s.put key entry).find? key = some entry := by
  simp [find?, isTop_of_find? h, put]

theorem find?_put_of_ne (s : Store) {key other : List String} (h : other ≠ key) (entry : Entry) :
    (s.put key entry).find? other = s.find? other := by
  unfold find? put
  split
  · rfl
  · have hhead : (key == other) = false := by simpa using fun heq : key = other => h heq.symm
    rw [List.find?_cons_of_neg (by simp [hhead]), List.find?_filter]
    congr 2
    funext entry
    by_cases heq : entry.1 = other
    · simp [heq, h]
    · simp [heq]

/-- Folders stay when something is put where no folder is. -/
theorem find?_put_folder {s : Store} {key other : List String} (h : s.find? key ≠ some .folder) (entry : Entry)
    (hother : s.find? other = some .folder) : (s.put key entry).find? other = some .folder := by
  have hne : other ≠ key := by
    rintro rfl
    exact h hother
  rw [find?_put_of_ne s hne, hother]

/-! ### Following a path -/

/-- The pieces of a path lead from a folder to a key under which there is no folder: an entry is there, or
    nothing yet. The path may end with a slash. -/
inductive Leads (s : Store) : List String → List String → List String → Option Entry → Bool → Prop
  | idle {start : List String} {piece : String} {rest key : List String} {entry : Option Entry} {slash : Bool}
      (hidle : Path.isIdle piece = true) (h : Leads s start rest key entry slash) :
      Leads s start (piece :: rest) key entry slash
  | up {start : List String} {piece : String} {rest key : List String} {entry : Option Entry} {slash : Bool}
      (hidle : ¬Path.isIdle piece = true) (hup : (piece == "..") = true)
      (h : Leads s (above start) rest key entry slash) : Leads s start (piece :: rest) key entry slash
  | down {start : List String} {piece : String} {rest key : List String} {entry : Option Entry} {slash : Bool}
      (hidle : ¬Path.isIdle piece = true) (hup : ¬(piece == "..") = true)
      (hshort : ¬nameLimit < piece.utf8ByteSize) (hfolder : s.find? (start ++ [piece]) = some .folder)
      (h : Leads s (start ++ [piece]) rest key entry slash) : Leads s start (piece :: rest) key entry slash
  | last {start : List String} {piece : String} {rest : List String} {entry : Option Entry}
      (hidle : ¬Path.isIdle piece = true) (hup : ¬(piece == "..") = true)
      (hshort : ¬nameLimit < piece.utf8ByteSize) (hentry : s.find? (start ++ [piece]) = entry)
      (hne : entry ≠ some .folder) (hlast : rest.all (· == "") = true) :
      Leads s start (piece :: rest) (start ++ [piece]) entry (!rest.isEmpty)

namespace Leads

variable {s s' : Store} {start pieces key : List String} {entry entry' : Option Entry} {slash : Bool}

theorem find?_eq (h : Leads s start pieces key entry slash) : s.find? key = entry ∧ entry ≠ some .folder := by
  induction h with
  | idle hidle h ih => exact ih
  | up hidle hup h ih => exact ih
  | down hidle hup hshort hfolder h ih => exact ih
  | last hidle hup hshort hentry hne hlast => exact ⟨hentry, hne⟩

theorem find?_ne (h : Leads s start pieces key entry slash) : s.find? key ≠ some .folder := by
  rw [h.find?_eq.1]
  exact h.find?_eq.2

/-- A path leads to the key that it names. -/
theorem key_eq (h : Leads s start pieces key entry slash) : key = Path.keyFrom start pieces := by
  induction h with
  | idle hidle h ih => rw [Path.keyFrom, if_pos hidle, ih]
  | up hidle hup h ih => rw [Path.keyFrom, if_neg hidle, if_pos hup, ih]
  | down hidle hup hshort hfolder h ih => rw [Path.keyFrom, if_neg hidle, if_neg hup, ih]
  | last hidle hup hshort hentry hne hlast =>
      rw [Path.keyFrom, if_neg hidle, if_neg hup, Path.keyFrom_of_all_empty _ hlast]

/-- A path leads to the same key in every store that has the folders on the way. -/
theorem transfer (h : Leads s start pieces key entry slash)
    (hfolders : ∀ other, s.find? other = some .folder → s'.find? other = some .folder)
    (hentry : s'.find? key = entry') (hne : entry' ≠ some .folder) :
    Leads s' start pieces key entry' slash := by
  induction h with
  | idle hidle h ih => exact .idle hidle (ih hentry)
  | up hidle hup h ih => exact .up hidle hup (ih hentry)
  | down hidle hup hshort hfolder h ih => exact .down hidle hup hshort (hfolders _ hfolder) (ih hentry)
  | last hidle hup hshort _ _ hlast => exact .last hidle hup hshort hentry hne hlast

/-- A path leads to what is put where it led before. -/
theorem put_self (h : Leads s start pieces key entry slash) (content : Content) :
    Leads (s.put key (.file content)) start pieces key (some (.file content)) slash :=
  h.transfer (fun _ => find?_put_folder h.find?_ne _) (find?_put_self h.find?_ne _) (by simp)

/-- A path leads where it led before, when something is put under another key. -/
theorem put_other (h : Leads s start pieces key entry slash) {other : List String}
    (hother : s.find? other ≠ some .folder) (hne : key ≠ other) (new : Entry) :
    Leads (s.put other new) start pieces key entry slash :=
  h.transfer (fun _ => find?_put_folder hother _) ((find?_put_of_ne s hne _).trans h.find?_eq.1) h.find?_eq.2

theorem walk_eq (h : Leads s start pieces key entry slash) {content : Content} (hfile : entry = some (.file content)) :
    s.walk start pieces = .ok (.file key content slash) := by
  induction h with
  | idle hidle h ih => rw [walk, if_pos hidle, ih hfile]
  | up hidle hup h ih => rw [walk, if_neg hidle, if_pos hup, ih hfile]
  | down hidle hup hshort hfolder h ih =>
      rw [walk, if_neg hidle, if_neg hup, if_neg hshort]
      simp only [hfolder, ih hfile]
  | last hidle hup hshort hentry hne hlast =>
      rw [walk, if_neg hidle, if_neg hup, if_neg hshort]
      simp only [hentry, hfile, hlast, if_true]

end Leads

/-- What is at a place, if it is no folder's: the key, the entry, and whether the path ends with a slash. -/
def target? : Place → Option (List String × Option Entry × Bool)
  | .file key content slash => some (key, some (.file content), slash)
  | .folder _ => none
  | .vacant key slash => some (key, none, slash)

/-- Following a path ends where it leads. -/
theorem leads_of_walk {s : Store} {start pieces key : List String} {place : Place} {entry : Option Entry}
    {slash : Bool} (h : s.walk start pieces = .ok place) (htarget : target? place = some (key, entry, slash)) :
    Leads s start pieces key entry slash := by
  induction pieces generalizing start with
  | nil =>
      obtain rfl := Except.ok.inj h
      simp [target?] at htarget
  | cons piece rest ih =>
      by_cases hidle : Path.isIdle piece = true
      · rw [walk, if_pos hidle] at h
        exact .idle hidle (ih h)
      by_cases hup : (piece == "..") = true
      · rw [walk, if_neg hidle, if_pos hup] at h
        exact .up hidle hup (ih h)
      by_cases hlong : nameLimit < piece.utf8ByteSize
      · rw [walk, if_neg hidle, if_neg hup, if_pos hlong] at h
        simp at h
      rw [walk, if_neg hidle, if_neg hup, if_neg hlong] at h
      dsimp only at h
      -- A folder is gone through; at anything else the path ends.
      split at h
      · next hfind => exact .down hidle hup hlong hfind (ih h)
      · next content hfind =>
          split at h
          · next hlast =>
              obtain rfl := Except.ok.inj h
              simp only [target?, Option.some.injEq, Prod.mk.injEq] at htarget
              obtain ⟨rfl, rfl, rfl⟩ := htarget
              exact .last hidle hup hlong hfind (by simp) hlast
          · simp at h
      · next hfind =>
          split at h
          · next hlast =>
              obtain rfl := Except.ok.inj h
              simp only [target?, Option.some.injEq, Prod.mk.injEq] at htarget
              obtain ⟨rfl, rfl, rfl⟩ := htarget
              exact .last hidle hup hlong hfind (by simp) hlast
          · simp at h

/-! ### Reading and writing -/

theorem locate_eq_ok_iff {s : Store} {path : String} {place : Place} :
    s.locate path = .ok place ↔
      Path.Usable path ∧ s.walk (Path.origin path) (Path.pieces path) = .ok place := by
  unfold locate Path.origin
  by_cases hplain : path.toList.contains '\x00' = true
  · rw [if_pos hplain]
    exact ⟨fun h => by simp at h, fun h => absurd hplain h.1.plain⟩
  by_cases hgiven : (path == "") = true
  · rw [if_neg hplain, if_pos hgiven]
    exact ⟨fun h => by simp at h, fun h => absurd hgiven h.1.given⟩
  by_cases hlong : pathLimit < path.utf8ByteSize
  · rw [if_neg hplain, if_neg hgiven, if_pos hlong]
    exact ⟨fun h => by simp at h, fun h => absurd hlong h.1.short⟩
  rw [if_neg hplain, if_neg hgiven, if_neg hlong]
  exact ⟨fun h => ⟨⟨hplain, hgiven, hlong⟩, h⟩, fun h => h.2⟩

/-- A path leads to its key in a store, and does not end with a slash. -/
def LeadsTo (s : Store) (path : String) (entry : Option Entry) : Prop :=
  Path.Usable path ∧ Leads s (Path.origin path) (Path.pieces path) (Path.key path) entry false

theorem leadsTo_of_locate {s : Store} {path : String} {place : Place} {key : List String} {entry : Option Entry}
    (h : s.locate path = .ok place) (htarget : target? place = some (key, entry, false)) :
    key = Path.key path ∧ s.LeadsTo path entry := by
  obtain ⟨husable, hwalk⟩ := locate_eq_ok_iff.1 h
  have hleads := leads_of_walk hwalk htarget
  obtain rfl : key = Path.key path := hleads.key_eq
  exact ⟨rfl, husable, hleads⟩

/-- A file can be read where its path leads to it. -/
theorem read_eq_ok_iff {s : Store} {path : String} {content : Content} :
    s.read path = .ok content ↔ s.LeadsTo path (some (.file content)) := by
  unfold read
  rw [bind_eq_ok_iff]
  constructor
  · rintro ⟨place, hlocate, h⟩
    split at h
    · obtain rfl := Except.ok.inj h
      exact (leadsTo_of_locate hlocate rfl).2
    all_goals simp at h
  · rintro ⟨husable, hleads⟩
    exact ⟨_, locate_eq_ok_iff.2 ⟨husable, hleads.walk_eq rfl⟩, rfl⟩

/-- Writing puts a file under the key of its path. -/
theorem eq_put_of_write {s after : Store} {path : String} {content : Content}
    (h : s.write path content = .ok after) :
    (∃ entry, s.LeadsTo path entry) ∧ after = s.put (Path.key path) (.file content) := by
  obtain ⟨place, hlocate, hwrite⟩ := bind_eq_ok_iff.1 h
  split at hwrite
  · obtain ⟨rfl, hleads⟩ := leadsTo_of_locate hlocate rfl
    exact ⟨⟨_, hleads⟩, (Except.ok.inj hwrite).symm⟩
  · obtain ⟨rfl, hleads⟩ := leadsTo_of_locate hlocate rfl
    exact ⟨⟨_, hleads⟩, (Except.ok.inj hwrite).symm⟩
  · simp at hwrite

/-- A file is read as it was written. -/
theorem read_of_write {s after : Store} {path : String} {content : Content}
    (h : s.write path content = .ok after) : after.read path = .ok content := by
  obtain ⟨⟨entry, husable, hleads⟩, rfl⟩ := eq_put_of_write h
  exact read_eq_ok_iff.2 ⟨husable, hleads.put_self content⟩

/-- The bytes of a text are read as the text. -/
theorem readText_of_read {s : Store} {path text : String} (h : s.read path = .ok (.bytes text.toUTF8)) :
    s.readText path = .ok text := by
  have hdecoded : String.fromUTF8? text.toUTF8 = some text := dif_pos text.isValidUTF8
  unfold readText
  rw [h]
  simp only [ok_bind, hdecoded]

theorem readText_of_write {s after : Store} {path text : String}
    (h : s.write path (.bytes text.toUTF8) = .ok after) : after.readText path = .ok text :=
  readText_of_read (read_of_write h)

/-! ### Other files -/

/-- A file that could be read before is read the same after. -/
def Retains (before after : Store) (path : String) : Prop :=
  ∀ content, before.read path = .ok content → after.read path = .ok content

section Retains

variable {before middle after : Store} {path : String}

theorem Retains.refl (s : Store) (path : String) : Retains s s path := fun _ h => h

theorem Retains.trans (hfirst : Retains before middle path) (hnext : Retains middle after path) :
    Retains before after path :=
  fun content h => hnext content (hfirst content h)

theorem Retains.readText (h : Retains before after path) {text : String} (hread : before.readText path = .ok text) :
    after.readText path = .ok text := by
  obtain ⟨content, hcontent, htext⟩ := bind_eq_ok_iff.1 hread
  exact bind_eq_ok_iff.2 ⟨content, h content hcontent, htext⟩

theorem retains_put {s : Store} {other : List String} (hother : s.find? other ≠ some .folder)
    (hne : ∀ content, s.read path = .ok content → Path.key path ≠ other) (entry : Entry) :
    Retains s (s.put other entry) path := by
  intro content h
  obtain ⟨husable, hleads⟩ := read_eq_ok_iff.1 h
  exact read_eq_ok_iff.2 ⟨husable, hleads.put_other hother (hne content h) entry⟩

/-- Writing one file keeps those under other keys. -/
theorem retains_of_write {other : String} {content : Content} (h : before.write other content = .ok after)
    (hne : Path.key path ≠ Path.key other) : Retains before after path := by
  obtain ⟨⟨entry, -, hleads⟩, rfl⟩ := eq_put_of_write h
  exact retains_put hleads.find?_ne (fun _ _ => hne) _

/-- Making a folder keeps every file: there was nothing where the folder is now. -/
theorem retains_of_makeFolder {other : String} (h : before.makeFolder other = .ok after) :
    Retains before after path := by
  obtain ⟨place, hlocate, hmake⟩ := bind_eq_ok_iff.1 h
  split at hmake
  · next key slash =>
      obtain rfl := Except.ok.inj hmake
      have hvacant := (leads_of_walk (locate_eq_ok_iff.1 hlocate).2 rfl).find?_eq.1
      refine retains_put (by rw [hvacant]; simp) (fun content hread => ?_) _
      rintro rfl
      have hfile := (read_eq_ok_iff.1 hread).2.find?_eq.1
      rw [hvacant] at hfile
      simp at hfile
  · simp at hmake

theorem retains_makeFolderAt (s : Store) (other : String) : Retains s (s.makeFolderAt other).1 path := by
  unfold makeFolderAt
  cases hmake : s.makeFolder other with
  | ok next => exact retains_of_makeFolder hmake
  | error fault => exact .refl s path

theorem retains_makeFoldersUpTo (fuel : Nat) (s : Store) (other : String) :
    Retains s (makeFoldersUpTo fuel s other).1 path := by
  induction fuel generalizing s other with
  | zero => exact .refl s path
  | succ fuel ih =>
      rw [makeFoldersUpTo]
      split
      · exact .refl s path
      · split
        · split
          · exact .refl s path
          · next parent _ =>
              have hparent := ih s parent
              split
              · next made hmade =>
                  rw [hmade] at hparent
                  exact hparent.trans (retains_makeFolderAt made other)
              · exact hparent
        · exact retains_makeFolderAt s other

/-- Making folders keeps every file. -/
theorem retains_makeFolders (s : Store) (other : String) : Retains s (s.makeFolders other).1 path :=
  retains_makeFoldersUpTo _ s other

end Retains

end Store

end FlightFit
