import BlockCache.Proofs.FileTable

/-!
# Logs of open files

A log says which files were opened and which descriptors were closed. A table that is used
in this way has open what its log says, and gives each descriptor once: the file that was
opened under a descriptor is the only one that it ever stands for.
-/

namespace BlockCache

inductive FileChange (η : Type) where
  | opened (path : String) (fd : FileDescriptor) (handle : η)
  | closed (fd : FileDescriptor)

namespace FileChange

variable {η : Type}

def descriptor? : FileChange η -> Option FileDescriptor
  | .opened _ fd _ => some fd
  | .closed _ => none

def opening? (fd : FileDescriptor) : FileChange η -> Option η
  | .opened _ other handle => if other = fd then some handle else none
  | .closed _ => none

/-- The handle that is open as `fd` afterwards, from the one before. -/
def update (fd : FileDescriptor) (handle? : Option η) : FileChange η -> Option η
  | .opened _ other handle => if other = fd then some handle else handle?
  | .closed other => if other = fd then none else handle?

end FileChange

section Logs

variable {η : Type}

def descriptorsIn (log : List (FileChange η)) : List FileDescriptor :=
  log.filterMap FileChange.descriptor?

/-- The handle of the file that was opened as `fd`, also if it is closed again. -/
def openingIn? (log : List (FileChange η)) (fd : FileDescriptor) : Option η :=
  log.findSome? (FileChange.opening? fd)

def handleIn? (log : List (FileChange η)) (fd : FileDescriptor) : Option η :=
  log.foldl (FileChange.update fd) none

/-- The bytes of the regular file that was opened as `fd`, none if there is none. -/
def bytesIn (contents : η -> Option RegularFile) (log : List (FileChange η))
    (fd : FileDescriptor) : Bytes :=
  match (openingIn? log fd).bind contents with
  | some file => file.bytes
  | none => []

variable {log : List (FileChange η)} {fd : FileDescriptor} {handle : η}

theorem handleIn?_concat (log : List (FileChange η)) (change : FileChange η)
    (fd : FileDescriptor) :
    handleIn? (log ++ [change]) fd = change.update fd (handleIn? log fd) := by
  rw [handleIn?, List.foldl_concat]
  rfl

theorem openingIn?_concat (log : List (FileChange η)) (change : FileChange η)
    (fd : FileDescriptor) :
    openingIn? (log ++ [change]) fd = (openingIn? log fd).or (change.opening? fd) := by
  rw [openingIn?, List.findSome?_append, List.findSome?_singleton]
  rfl

theorem descriptorsIn_concat (log : List (FileChange η)) (change : FileChange η) :
    descriptorsIn (log ++ [change]) = descriptorsIn log ++ change.descriptor?.toList := by
  rw [descriptorsIn, List.filterMap_append]
  cases hdescriptor : change.descriptor? <;> simp [hdescriptor, descriptorsIn]

theorem exists_opened_of_openingIn? (h : openingIn? log fd = some handle) :
    exists path, .opened path fd handle ∈ log := by
  rcases List.exists_of_findSome?_eq_some h with ⟨change, hmem, hopening⟩
  cases change with
  | opened path other handle' =>
      rw [FileChange.opening?] at hopening
      split at hopening
      · rename_i hsame
        cases hopening
        exact ⟨path, hsame ▸ hmem⟩
      · cases hopening
  | closed other => cases hopening

theorem mem_descriptorsIn (h : openingIn? log fd = some handle) : fd ∈ descriptorsIn log := by
  rcases exists_opened_of_openingIn? h with ⟨path, hmem⟩
  exact List.mem_filterMap.mpr ⟨_, hmem, rfl⟩

theorem exists_file_of_bytesIn {contents : η -> Option RegularFile}
    (h : bytesIn contents log fd ≠ []) :
    exists handle file, openingIn? log fd = some handle ∧ contents handle = some file := by
  unfold bytesIn at h
  cases hfile : (openingIn? log fd).bind contents with
  | none =>
      rw [hfile] at h
      exact absurd rfl h
  | some file =>
      rcases Option.bind_eq_some_iff.mp hfile with ⟨handle, hopening, hcontents⟩
      exact ⟨handle, file, hopening, hcontents⟩

theorem bytesIn_eq {contents : η -> Option RegularFile} {file : RegularFile}
    (hopening : openingIn? log fd = some handle) (hfile : contents handle = some file) :
    bytesIn contents log fd = file.bytes := by
  rw [bytesIn, hopening, Option.bind_some, hfile]

theorem bytesIn_concat {contents : η -> Option RegularFile} (h : bytesIn contents log fd ≠ [])
    (change : FileChange η) :
    bytesIn contents (log ++ [change]) fd = bytesIn contents log fd := by
  rcases exists_file_of_bytesIn h with ⟨handle, file, hopening, -⟩
  rw [bytesIn, bytesIn, openingIn?_concat, hopening, Option.some_or]

end Logs

namespace FileTable

theorem toInt_successor? {fd next : FileDescriptor} (h : successor? fd = some next) :
    next.number.toInt = fd.number.toInt + 1 := by
  unfold successor? at h
  split at h
  · cases h
  · rename_i hlast
    cases h
    have hbound := fd.number.toInt_lt
    have hbound' := fd.number.le_toInt
    have hne : fd.number.toInt ≠ Int32.maxValue.toInt := fun heq => hlast (Int32.toInt_inj.mp heq)
    rw [Int32.toInt_maxValue] at hne
    rw [Int32.toInt_add, Int32.toInt_one]
    apply Int.bmod_eq_of_le
    · omega
    · omega

variable {φ η : Type} {table table' : FileTable φ η} {log : List (FileChange η)}

/-- The files are open that the log says, under descriptors that count the openings. -/
structure Logged (log : List (FileChange η)) (table : FileTable φ η) : Prop where
  files : forall fd, table.files[fd]? = handleIn? log fd
  next : table.next.number.toInt = (descriptorsIn log).length
  numbers : (descriptorsIn log).map (fun fd => fd.number.toInt) =
    (List.range (descriptorsIn log).length).map Int.ofNat
  unchanged : forall fd handle, handleIn? log fd = some handle -> openingIn? log fd = some handle

theorem logged_empty (fs : φ) : Logged [] (empty fs : FileTable φ η) where
  files _ := Std.TreeMap.getElem?_emptyc
  next := rfl
  numbers := rfl
  unchanged fd handle h := by
    cases h

theorem Logged.kept (h : Logged log table) (hfiles : table'.files = table.files)
    (hnext : table'.next = table.next) : Logged log table' where
  files fd := by
    rw [hfiles]
    exact h.files fd
  next := by
    rw [hnext]
    exact h.next
  numbers := h.numbers
  unchanged := h.unchanged

theorem Logged.openingIn?_next (h : Logged log table) : openingIn? log table.next = none := by
  cases hopening : openingIn? log table.next with
  | none => rfl
  | some handle =>
      have hmem := List.mem_map_of_mem (f := fun fd => fd.number.toInt)
        (mem_descriptorsIn hopening)
      rw [h.numbers, h.next] at hmem
      rcases List.mem_map.mp hmem with ⟨n, hn, hnumber⟩
      have hlt := List.mem_range.mp hn
      have heq : n = (descriptorsIn log).length := Int.ofNat.inj hnumber
      omega

theorem Logged.closed (h : Logged log table) (fd : FileDescriptor) :
    Logged (log ++ [.closed fd]) (table.close fd).2.1 := by
  have hdescriptors : descriptorsIn (log ++ [.closed fd]) = descriptorsIn log :=
    (descriptorsIn_concat _ _).trans (List.append_nil _)
  constructor
  case files =>
      intro other
      show (table.files.erase fd)[other]? = _
      rw [Std.TreeMap.getElem?_erase, handleIn?_concat, h.files, FileChange.update]
      simp only [Std.compare_eq_iff_eq]
  case next =>
      rw [hdescriptors]
      exact h.next
  case numbers =>
      rw [hdescriptors]
      exact h.numbers
  case unchanged =>
      intro other handle hhandle
      rw [handleIn?_concat, FileChange.update] at hhandle
      rw [openingIn?_concat]
      split at hhandle
      · cases hhandle
      · rw [h.unchanged other handle hhandle, Option.some_or]

theorem Logged.opened {next : FileDescriptor} (h : Logged log table)
    (hnext : successor? table.next = some next) (fs' : φ) (path : String) (handle : η) :
    Logged (log ++ [.opened path table.next handle])
      { fs := fs', next := next, files := table.files.insert table.next handle } := by
  have hdescriptors : descriptorsIn (log ++ [.opened path table.next handle]) =
      descriptorsIn log ++ [table.next] := descriptorsIn_concat _ _
  constructor
  case files =>
      intro other
      show (table.files.insert table.next handle)[other]? = _
      rw [Std.TreeMap.getElem?_insert, handleIn?_concat, h.files, FileChange.update]
      simp only [Std.compare_eq_iff_eq]
  case next =>
      rw [hdescriptors, List.length_append, toInt_successor? hnext, h.next]
      rfl
  case numbers =>
      rw [hdescriptors, List.length_append, List.length_singleton, List.range_succ,
        List.map_append, List.map_append, h.numbers, List.map_singleton, h.next]
      rfl
  case unchanged =>
      intro other handle' hhandle
      rw [handleIn?_concat, FileChange.update] at hhandle
      rw [openingIn?_concat]
      split at hhandle
      · -- The descriptor is new, so no earlier opening hides this one.
        rename_i hsame
        rw [<- hsame, h.openingIn?_next, Option.none_or, FileChange.opening?, if_pos rfl]
        exact hhandle
      · rw [h.unchanged other handle' hhandle, Option.some_or]

variable [FileSystem φ η]

theorem openPath_cases (table : FileTable φ η) (path : String) :
    (exists handle next, (FileSystem.openPath table.fs path).1 = .ok handle ∧
      successor? table.next = some next ∧
      table.openPath path = (.ok table.next,
        { fs := (FileSystem.openPath table.fs path).2
          next := next
          files := table.files.insert table.next handle }, [.opened table.next path])) ∨
    exists e, table.openPath path =
      (.error e, { table with fs := (FileSystem.openPath table.fs path).2 }, []) := by
  rcases hopen : FileSystem.openPath table.fs path with ⟨answer, fs'⟩
  simp only [openPath, hopen]
  cases answer with
  | error cause => exact .inr ⟨_, rfl⟩
  | ok handle =>
      cases hnext : successor? table.next with
      | none => exact .inr ⟨_, rfl⟩
      | some next => exact .inl ⟨handle, next, rfl, rfl, rfl⟩

theorem Logged.faithful {contents : η -> Option RegularFile} {blockSize : UInt32}
    (h : Logged log table) (hhonest : FileSystem.Honest contents table.fs)
    (hsize : 0 < blockSize.toNat) : Faithful (bytesIn contents log) blockSize table := by
  apply FileTable.faithful hhonest hsize
  intro fd handle file hhandle hfile
  rw [h.files] at hhandle
  exact bytesIn_eq (h.unchanged fd handle hhandle) hfile

end FileTable
end BlockCache
