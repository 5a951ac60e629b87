/-
  Paths and folders (`utils/FileSystem.cpp`).

  `getNextFile` lists the block files of a folder and picks the first one that has
  bytes behind the position that is recorded for it.

  A name that is put behind the path of a folder is the last element of the whole
  path (`getBasename_getFullPath`), unless the path is `//`: `//name` is taken for
  the name of a host.
-/
import TorrentNode.BlockInfo

open Wire

namespace TorrentNode

/-! ## Paths -/

/-- The root name `//host` of a path, if it has one. -/
def rootName (path : Bytes) : Bytes :=
  if path.take 2 = ascii ['/', '/'] ∧ path.getD 2 0 ≠ '/'.toUInt8 then
    path.take 2 ++ (path.drop 2).takeWhile (· ≠ '/'.toUInt8)
  else []

/-- `getBasename(path)`: the last element of the path. -/
def getBasename (path : Bytes) : Bytes :=
  let rest := path.drop (rootName path).length
  let last := (rest.reverse.takeWhile (· ≠ '/'.toUInt8)).reverse
  if rest = [] then rootName path
  else if last ≠ [] then last
  else if rest.all (· = '/'.toUInt8) then ascii ['/']
  -- a slash behind the last element stands for `.`
  else ascii ['.']

/-- `struct CroppedFileName`. -/
structure CroppedFileName where
  name : Bytes
deriving DecidableEq, Repr

/-- `CroppedFileName(name)`. -/
def CroppedFileName.ofName (name : Bytes) : CroppedFileName := ⟨getBasename name⟩

/-- `getFullPath(fileName, folder)`. -/
def getFullPath (fileName folder : Bytes) : Bytes :=
  if folder ≠ [] ∧ folder.getLast? ≠ some '/'.toUInt8 ∧ fileName ≠ [] ∧
      fileName.head? ≠ some '/'.toUInt8 then
    folder ++ '/'.toUInt8 :: fileName
  else folder ++ fileName

/-- The name of a file in a folder. -/
def IsFileName (name : Bytes) : Prop := name ≠ [] ∧ '/'.toUInt8 ∉ name

instance (name : Bytes) : Decidable (IsFileName name) := inferInstanceAs (Decidable (_ ∧ _))

/-- What stands behind the last slash. -/
def lastName (path : Bytes) : Bytes := (path.reverse.takeWhile (· ≠ '/'.toUInt8)).reverse

/-! ## Names in a folder -/

/-- A path that a name can be put behind: it is empty, or ends with a slash. -/
def EndsWithSlash (pre : Bytes) : Prop := pre = [] ∨ ∃ init, pre = init ++ ['/'.toUInt8]

theorem EndsWithSlash.drop {pre : Bytes} (h : EndsWithSlash pre) (k : ℕ) :
    EndsWithSlash (pre.drop k) := by
  rcases h with rfl | ⟨init, rfl⟩
  · exact Or.inl List.drop_nil
  · by_cases hk : k ≤ init.length
    · exact Or.inr ⟨init.drop k, List.drop_append_of_le_length hk⟩
    · exact Or.inl (List.drop_eq_nil_of_le (by rw [List.length_append, List.length_singleton]; omega))

theorem lastName_append {pre name : Bytes} (hpre : EndsWithSlash pre) (hname : IsFileName name) :
    lastName (pre ++ name) = name := by
  have hall : ∀ c ∈ name.reverse, decide (c ≠ '/'.toUInt8) = true := by
    intro c hc
    have hc := List.mem_reverse.1 hc
    exact decide_eq_true fun h => hname.2 (h ▸ hc)
  have hstop : (pre.reverse).takeWhile (fun c => decide (c ≠ '/'.toUInt8)) = [] := by
    rcases hpre with rfl | ⟨init, rfl⟩
    · rfl
    · simp
  rw [lastName, List.reverse_append, List.takeWhile_append_of_pos hall, hstop, List.append_nil,
    List.reverse_reverse]

/-- A root name ends in front of a name behind it. -/
theorem rootName_length_le {pre name : Bytes} (hpre : EndsWithSlash pre) (hne : pre ≠ lit "//")
    (hname : IsFileName name) : (rootName (pre ++ name)).length ≤ pre.length := by
  have hslash : ∀ c ∈ name, c ≠ '/'.toUInt8 := fun c hc h => hname.2 (h ▸ hc)
  rw [rootName]
  split_ifs with h
  · obtain ⟨htwo, -⟩ := h
    rcases pre with _ | ⟨a, _ | ⟨b, pre⟩⟩
    · -- the first character of the name would be a slash
      obtain ⟨c, name, rfl⟩ := List.exists_cons_of_ne_nil hname.1
      simp only [List.nil_append, List.take_succ_cons, ascii, List.map_cons, List.cons.injEq] at htwo
      exact absurd htwo.1 (hslash c List.mem_cons_self)
    · obtain ⟨c, name, rfl⟩ := List.exists_cons_of_ne_nil hname.1
      simp only [List.cons_append, List.nil_append, List.take_succ_cons, ascii, List.map_cons,
        List.cons.injEq] at htwo
      exact absurd htwo.2.1 (hslash c List.mem_cons_self)
    · simp only [List.cons_append, List.take_succ_cons, List.take_zero, List.drop_succ_cons,
        List.drop_zero, List.length_cons, List.length_append, List.length_nil]
      have hne' : pre ≠ [] := by
        rintro rfl
        simp only [List.cons_append, List.take_succ_cons, List.take_zero, ascii, List.map_cons,
          List.map_nil, List.cons.injEq, and_true] at htwo
        exact hne (by rw [htwo.1, htwo.2]; rfl)
      -- the last slash stops the name of the host
      obtain ⟨init, hinit⟩ := (hpre.drop 2).resolve_left hne'
      rw [List.drop_succ_cons, List.drop_succ_cons, List.drop_zero] at hinit
      rw [hinit, List.append_assoc, List.takeWhile_append]
      have hle := (List.takeWhile_prefix (l := init) fun c => decide (c ≠ '/'.toUInt8)).length_le
      split_ifs
      · simp
      · rw [List.length_append, List.length_singleton]
        omega
  · exact Nat.zero_le _

/-- The last element of a path that ends with a name. -/
theorem getBasename_append {pre name : Bytes} (hpre : EndsWithSlash pre) (hne : pre ≠ lit "//")
    (hname : IsFileName name) : getBasename (pre ++ name) = name := by
  have hle := rootName_length_le hpre hne hname
  have hrest : (pre ++ name).drop (rootName (pre ++ name)).length =
      pre.drop (rootName (pre ++ name)).length ++ name := List.drop_append_of_le_length hle
  have hlast := lastName_append (hpre.drop (rootName (pre ++ name)).length) hname
  rw [getBasename, hrest]
  rw [if_neg (by simp [hname.1])]
  rw [lastName] at hlast
  rw [hlast, if_pos hname.1]

/-- What `getFullPath` puts in front of a name. -/
def folderPart (folder : Bytes) : Bytes :=
  if folder ≠ [] ∧ folder.getLast? ≠ some '/'.toUInt8 then folder ++ ['/'.toUInt8] else folder

theorem getFullPath_eq {name : Bytes} (hname : IsFileName name) (folder : Bytes) :
    getFullPath name folder = folderPart folder ++ name := by
  have hhead : name.head? ≠ some '/'.toUInt8 := fun h => hname.2 (List.mem_of_head? h)
  simp only [getFullPath, folderPart, hname.1, hhead, ne_eq, not_false_eq_true, and_true]
  split_ifs
  · rw [List.append_assoc, List.singleton_append]
  · rfl

theorem endsWithSlash_folderPart (folder : Bytes) : EndsWithSlash (folderPart folder) := by
  rw [folderPart]
  split_ifs with h
  · exact Or.inr ⟨folder, rfl⟩
  · rcases List.eq_nil_or_concat folder with rfl | ⟨init, c, rfl⟩
    · exact Or.inl rfl
    · have hc : c = '/'.toUInt8 := by simpa using h
      exact Or.inr ⟨init, by rw [hc, List.concat_eq_append]⟩

theorem folderPart_ne {folder : Bytes} (h : folder ≠ lit "//") : folderPart folder ≠ lit "//" := by
  rw [folderPart]
  split_ifs with hslash
  · -- the folder would be a slash
    intro heq
    have hfolder : folder = lit "/" := by
      have hinit := congrArg List.dropLast heq
      rwa [List.dropLast_concat] at hinit
    rw [hfolder] at hslash
    exact hslash.2 rfl
  · exact h

/-- **A name in a folder** is the last element of its path. -/
theorem getBasename_getFullPath {name folder : Bytes} (hname : IsFileName name)
    (hfolder : folder ≠ lit "//") : getBasename (getFullPath name folder) = name := by
  rw [getFullPath_eq hname]
  exact getBasename_append (endsWithSlash_folderPart folder) (folderPart_ne hfolder) hname

theorem getBasename_name {name : Bytes} (hname : IsFileName name) : getBasename name = name :=
  getBasename_append (Or.inl rfl) (by decide) hname

theorem lastName_getFullPath {name : Bytes} (hname : IsFileName name) (folder : Bytes) :
    lastName (getFullPath name folder) = name := by
  rw [getFullPath_eq hname]
  exact lastName_append (endsWithSlash_folderPart folder) hname

/-! ## Folders -/

/-- What a file of the folder holds. -/
def fileContent (files : Finmap fun _ : Bytes => Bytes) (name : Bytes) : Bytes :=
  (files.lookup name).getD []

/-- A folder that exists, with its files by name; sizes of files are of the type `off_t`. -/
structure Folder where
  path : Bytes
  files : Finmap fun _ : Bytes => Bytes
  path_ne : path ≠ []
  name_valid : ∀ name ∈ files, IsFileName name
  size_lt : ∀ name, (fileContent files name).length < 2 ^ 63

namespace Folder

variable (folder : Folder)

/-- What the file with this name holds. -/
def content (name : Bytes) : Bytes := fileContent folder.files name

/-- What the file at a path in the folder holds. -/
def contentAt (path : Bytes) : Bytes := folder.content (lastName path)

/-- The base names that `getNextFile` collects: those with `.blk` in them. -/
def blkNames : Finset Bytes :=
  (folder.files.keys.image fun name => getBasename (getBasename (getFullPath name folder.path))).filter
    fun name => lit ".blk" <:+: name

/-- Append to a file, or create it, if the file can be as long. -/
def append (name data : Bytes) : Option Folder :=
  if h : IsFileName name ∧ (folder.content name ++ data).length < 2 ^ 63 then
    some {
      path := folder.path
      files := folder.files.insert name (folder.content name ++ data)
      path_ne := folder.path_ne
      name_valid := by
        intro other hother
        rcases Finmap.mem_insert.1 hother with rfl | hother
        · exact h.1
        · exact folder.name_valid other hother
      size_lt := by
        intro other
        by_cases heq : other = name
        · rw [heq, fileContent, Finmap.lookup_insert]
          exact h.2
        · rw [fileContent, Finmap.lookup_insert_of_ne _ heq]
          exact folder.size_lt other }
  else none

/-- The files that are listed are files of the folder. -/
theorem mem_blkNames {folder : Folder} (hpath : folder.path ≠ lit "//") {file : Bytes} :
    file ∈ folder.blkNames ↔ file ∈ folder.files ∧ lit ".blk" <:+: file := by
  have hbase : ∀ name ∈ folder.files,
      getBasename (getBasename (getFullPath name folder.path)) = name := by
    intro name hname
    have hvalid := folder.name_valid name hname
    rw [getBasename_getFullPath hvalid hpath, getBasename_name hvalid]
  rw [Folder.blkNames, Finset.mem_filter, Finset.mem_image]
  refine and_congr_left fun _ => ⟨?_, fun h => ⟨file, Finmap.mem_keys.2 h, hbase file h⟩⟩
  rintro ⟨name, hname, rfl⟩
  rw [Finmap.mem_keys] at hname
  rwa [hbase name hname]

end Folder

section
variable (processedFiles : Finmap fun _ : CroppedFileName => FileInfo) (folder : Folder)

/-- The second loop of `getNextFile`. -/
def nextFile : List Bytes → FileInfo
  | [] => {}
  | file :: files =>
    let p := getFullPath file folder.path
    match processedFiles.lookup ⟨file⟩ with
    | none => { filePos := { fileName := p, pos := 0 } }
    | some fileInfo =>
      if fileInfo.filePos.pos.toNat < (folder.contentAt p).length then fileInfo
      else nextFile files

/-- `getNextFile(processedFiles, folder)`. -/
def getNextFile : FileInfo := nextFile processedFiles folder (folder.blkNames.sort (· ≤ ·))

end

end TorrentNode
