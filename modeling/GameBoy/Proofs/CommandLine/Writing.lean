import GameBoy.CommandLine.Files

/-!
# Reading what was written

What a program on files relies on is said in two classes. In a `FileStore` a file that was written
is found again with the bytes that were written, and a computation with `LawfulFileAccess` changes a
store by its writes alone. How a path is followed, why an access is refused, and what a refused
write leaves behind is up to the store.

A file tree is such a store (`FileTree.read_of_write`). The path is walked twice, in the tree before
and in the tree after; a new file hides no directory, so that both walks come to the same one. A
refused write leaves a tree as it was, which not every store does (`FileStore.Atomic`).
-/

namespace GameBoy

/-! ## File systems -/

/-- The content of a file system, and what reading and writing a file make of it. -/
class FileStore (σ : Type) where
  read : σ → String → Except FileError (Array Byte)
  write : σ → String → Array Byte → Except FileError Unit × σ
  /-- A file that was written is found with the bytes that were written. -/
  read_of_write {files files' : σ} {path : String} {bytes : Array Byte} :
    write files path bytes = (.ok (), files') → read files' path = .ok bytes

/-- Computations that take the content of a file system from one to the next, and change it by
writing files alone. -/
class LawfulFileAccess (m : Type → Type) (σ : Type) [Monad m] [FileAccess m] [FileStore σ] where
  /-- The value of a computation, and the content it leaves. -/
  exec {α : Type} : m α → σ → α × σ
  exec_pure {α : Type} (value : α) (files : σ) : exec (pure value) files = (value, files)
  exec_bind {α β : Type} (x : m α) (f : α → m β) (files : σ) :
    exec (x >>= f) files = exec (f (exec x files).1) (exec x files).2
  exec_readFile (path : String) (files : σ) :
    exec (FileAccess.readFile path) files = (FileStore.read files path, files)
  exec_writeFile (path : String) (bytes : Array Byte) (files : σ) :
    exec (FileAccess.writeFile path bytes) files = FileStore.write files path bytes

/-! ## The entries of a file tree -/

theorem bind_eq_ok {ε α β : Type} {x : Except ε α} {f : α → Except ε β} {value : β}
    (h : x >>= f = .ok value) : ∃ a, x = .ok a ∧ f a = .ok value := by
  cases x with
  | error e => cases h
  | ok a => exact ⟨a, rfl, h⟩

namespace FileTree

variable {tree tree' : FileTree} {names directory found : List String} {name : String}
  {bytes : Array Byte}

theorem exists_mem_insert (tree : FileTree) (names : List String) (bytes : Array Byte)
    {entry : List String × Array Byte} (h : entry ∈ tree.files) :
    ∃ value, (entry.1, value) ∈ (tree.insert names bytes).files := by
  by_cases hkey : entry.1 = names
  · exact ⟨bytes, by simp [insert, hkey]⟩
  · exact ⟨entry.2, by simp [insert, hkey, h]⟩

theorem isDirectory_insert (h : tree.isDirectory directory = true) (names : List String)
    (bytes : Array Byte) : (tree.insert names bytes).isDirectory directory = true := by
  simp only [isDirectory, Bool.or_eq_true, List.any_eq_true, Bool.and_eq_true] at h ⊢
  rcases h with h | ⟨entry, hentry, hbelow⟩
  · exact .inl h
  · obtain ⟨value, hmem⟩ := exists_mem_insert tree names bytes hentry
    exact .inr ⟨_, hmem, hbelow⟩

theorem isDirectory_insert_self (h : tree.isDirectory names = false) (bytes : Array Byte) :
    (tree.insert names bytes).isDirectory names = false := by
  simp only [isDirectory, insert, Bool.or_eq_false_iff, List.any_eq_false, List.any_cons] at h ⊢
  refine ⟨h.1, by simp, fun entry hentry => h.2 entry ?_⟩
  exact (List.mem_filter.mp hentry).1

/-! ## Names -/

/-- A name other than the two dots, and not too long. -/
def Proper (name : String) : Prop :=
  name ≠ "." ∧ name ≠ ".." ∧ name.utf8ByteSize ≤ Path.nameLimit

theorem entry_of_proper (h : Proper name) (tree : FileTree) (directory : List String) :
    tree.entry directory name = .ok
      (if tree.isDirectory (directory ++ [name]) then .directory (directory ++ [name])
      else match tree.file? (directory ++ [name]) with
        | some bytes => .file (directory ++ [name]) bytes
        | none => .missing (directory ++ [name])) := by
  obtain ⟨hdot, hdots, hlength⟩ := h
  simp only [entry, beq_iff_eq, hdot, hdots, if_false, Nat.not_lt.mpr hlength]
  split
  · rfl
  · cases tree.file? (directory ++ [name]) <;> rfl

/-- At any other name, all trees have the same. -/
theorem entry_of_not_proper (h : ¬ Proper name) (tree tree' : FileTree)
    (directory : List String) : tree.entry directory name = tree'.entry directory name := by
  unfold entry
  by_cases hdot : name = "."
  · simp [hdot]
  by_cases hdots : name = ".."
  · simp [hdots]
  have hlength : Path.nameLimit < name.utf8ByteSize :=
    Nat.not_le.mp fun hle => h ⟨hdot, hdots, hle⟩
  simp [hdot, hdots, hlength]

/-- The names under which a file can be written where an entry was looked up. -/
def Entry.target? : Entry → Option (List String)
  | .directory _ => none
  | .file names _ | .missing names => some names

/-- Where a file can be written, the name is a proper one, and no directory stands there. -/
theorem of_target {entry : Entry} (h : tree.entry directory name = .ok entry)
    (htarget : entry.target? = some names) :
    Proper name ∧ tree.isDirectory (directory ++ [name]) = false ∧
      names = directory ++ [name] := by
  by_cases hproper : Proper name
  · rw [entry_of_proper hproper] at h
    obtain rfl := Except.ok.inj h
    split at htarget
    · cases htarget
    · rename_i hd
      refine ⟨hproper, by simpa using hd, ?_⟩
      have hnames : some (directory ++ [name]) = some names := by
        rw [← htarget]
        split <;> rfl
      exact (Option.some.inj hnames).symm
  · -- the two dots lead to directories, and a name that is too long leads nowhere
    unfold FileTree.entry at h
    split at h
    · cases h
      cases htarget
    · split at h
      · cases h
        cases htarget
      · rename_i hdot hdots
        have hlong := Nat.not_le.mp fun hle =>
          hproper ⟨by simpa using hdot, by simpa using hdots, hle⟩
        rw [if_pos hlong] at h
        cases h

theorem entry_insert_of_directory (h : tree.entry directory name = .ok (.directory found))
    (names : List String) (bytes : Array Byte) :
    (tree.insert names bytes).entry directory name = .ok (.directory found) := by
  by_cases hproper : Proper name
  · rw [entry_of_proper hproper] at h ⊢
    by_cases hd : tree.isDirectory (directory ++ [name]) = true
    · rw [if_pos hd] at h
      rw [if_pos (isDirectory_insert hd names bytes)]
      exact h
    · rw [if_neg hd] at h
      split at h <;> cases h
  · rw [entry_of_not_proper hproper _ tree]
    exact h

theorem walk_insert {start : List String} {way : List String}
    (h : tree.walk start way = .ok directory) (names : List String) (bytes : Array Byte) :
    (tree.insert names bytes).walk start way = .ok directory := by
  induction way generalizing start with
  | nil => exact h
  | cons name rest ih =>
    unfold walk at h ⊢
    split at h
    · cases h
    · rename_i found hfound
      rw [entry_insert_of_directory hfound]
      exact ih h
    · cases h
    · cases h

/-! ## Files -/

/-- What a write that succeeds does: it puts a file at a proper name in the directory that the path
leads to. -/
theorem write_eq_ok {path : String} (h : tree.write path bytes = .ok tree') :
    ∃ parsed directory name, Path.parse path = .ok parsed ∧ tree.parent parsed = .ok directory ∧
      parsed.last = some name ∧ parsed.trailing = false ∧ Proper name ∧
      tree.isDirectory (directory ++ [name]) = false ∧
      tree' = tree.insert (directory ++ [name]) bytes := by
  obtain ⟨parsed, hparsed, h⟩ := bind_eq_ok h
  obtain ⟨directory, hparent, h⟩ := bind_eq_ok h
  cases hlast : parsed.last with
  | none => rw [hlast] at h; cases h
  | some name =>
    simp only [hlast] at h
    by_cases htrailing : parsed.trailing = true
    · rw [if_pos htrailing] at h
      cases h
    rw [if_neg htrailing] at h
    obtain ⟨entry, hentry, h⟩ := bind_eq_ok h
    obtain ⟨names, htarget, hinsert⟩ :
        ∃ names, entry.target? = some names ∧ tree' = tree.insert names bytes := by
      cases entry with
      | directory names => cases h
      | file names value => exact ⟨names, rfl, (Except.ok.inj h).symm⟩
      | missing names => exact ⟨names, rfl, (Except.ok.inj h).symm⟩
    obtain ⟨hproper, hd, rfl⟩ := of_target hentry htarget
    exact ⟨parsed, directory, name, hparsed, hparent, hlast, by simpa using htrailing, hproper, hd,
      hinsert⟩

/-- **A file that was written can be read.** -/
theorem read_of_write {path : String} (h : tree.write path bytes = .ok tree') :
    tree'.read path = .ok bytes := by
  obtain ⟨parsed, directory, name, hparsed, hparent, hlast, htrailing, hproper, hd, rfl⟩ :=
    write_eq_ok h
  have hparent' : (tree.insert (directory ++ [name]) bytes).parent parsed = .ok directory :=
    walk_insert hparent _ _
  have hentry : (tree.insert (directory ++ [name]) bytes).entry directory name =
      .ok (.file (directory ++ [name]) bytes) := by
    rw [entry_of_proper hproper, if_neg (by simp [isDirectory_insert_self hd]), file?_insert,
      if_pos rfl]
  unfold read
  simp only [hparsed, hparent', hlast, hentry, htrailing, bind, Except.bind, Bool.false_eq_true,
    if_false]

instance : FileStore FileTree where
  read := FileTree.read
  write tree path bytes :=
    match tree.write path bytes with
    | .error e => (.error e, tree)
    | .ok tree' => (.ok (), tree')
  read_of_write {tree tree' path bytes} h := by
    cases hwrite : tree.write path bytes with
    | error e => simp [hwrite] at h
    | ok written =>
      obtain rfl : written = tree' := by simpa [hwrite] using h
      exact read_of_write hwrite

instance : LawfulFileAccess (StateM FileTree) FileTree where
  exec x tree := x.run tree
  exec_pure _ _ := rfl
  exec_bind _ _ _ := rfl
  exec_readFile _ _ := rfl
  exec_writeFile _ _ _ := rfl

end FileTree

end GameBoy
