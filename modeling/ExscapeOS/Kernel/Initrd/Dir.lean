import ExscapeOS.Kernel.Fat.DirBuf
import ExscapeOS.Kernel.Heap.Basic
import ExscapeOS.Kernel.Initrd.Image

/-!
# Directories of the initrd

`initrd_opendir` fills a buffer with a record for each entry, and `initrd_readdir` returns one after
the other. The size of the buffer is computed with more for each entry than a record takes, to make
room for `.` and `..` as well. There is none for these in an empty directory: `initrd_readdir` fails
its assertion that a whole `struct dirent` is in the buffer.
-/
namespace ExscapeOS.Initrd

open Lib ExscapeOS.Path Fat List Option

/-- The bytes of the buffer for an entry. -/
def bytesPerEntry : Nat := sizeofDirent - 256 + 64 + 4 + 32

/-- A record is added at the end, within the buffer. -/
def addDirent (dir : DirBuf) (dent : Dirent) : Option DirBuf := do
  let m ← dir.buf
  kassert (dir.len + 12 + dent.dName.length + 1 ≤ dir.buflen)
  kassert (dent.dReclen ≤ sizeofDirent)
  return { dir with buf := some (storeDirent m dir.len dent), len := dir.len + dent.dReclen }

def dotDirent (dev ino : Nat) : Dirent := ⟨ino, dev % 65536, .dir, dot, by decide⟩

def dotdotDirent (dev ino : Nat) : Dirent := ⟨ino, dev % 65536, .dir, dotdot, by decide⟩

/-- The record for a header. -/
def Header.dirent (dev i : Nat) (h : Header) : Dirent where
  dIno := i
  dDev := dev % 65536
  dType := if h.isDir then .dir else .reg
  dName := strlcpy h.name 64
  short := (length_take_le _ _).trans (by decide)

/-- The loop of `initrd_opendir` over the headers. -/
def addEntries (dev dirInode : Nat) (dir : DirBuf) (hs : List (Header × Nat)) : Option DirBuf :=
  hs.foldlM (fun dir (h, i) =>
    if h.parent ≠ dirInode then some dir else addDirent dir (h.dirent dev i)) dir

/-- `initrd_opendir` behind the lookup. `kmalloc` has at most `supply` bytes. -/
def openInode (supply dev : Nat) (files : List Header) (dirInode parentInode : Nat) :
    Option DirBuf := do
  let h ← files[dirInode]?
  let buflen := (h.length * bytesPerEntry + sizeofDirent) % wordSize
  kassert (buflen ≤ supply)
  let dir ← addDirent { buf := some fun _ => 0, buflen := buflen, pos := 0, len := 0 }
    (dotDirent dev dirInode)
  let dir ← addDirent dir (dotdotDirent dev parentInode)
  addEntries dev dirInode dir (files.zipIdx.drop (rootInode + 1))

def initrdOpendir (supply dev : Nat) (files : List Header) (path : Str) : Option (Option DirBuf) :=
  match directoryAt files path with
  | none => some none
  | some (dirInode, parentInode) => (openInode supply dev files dirInode parentInode).map some

def initrdReaddir (dir : DirBuf) : Option (Option DirentFields × DirBuf) := do
  if dir.len ≠ 0 ∧ dir.len ≤ dir.pos then
    kassert (dir.pos = dir.len)
    return (none, dir)
  else
    let m ← dir.buf
    kassert (dir.pos < dir.len)
    kassert (dir.pos % 4 = 0)
    kassert ((dir.len : Int) < signed32 dir.buflen)
    let dent := loadDirent m dir.pos
    kassert (dent.dReclen ≠ 0)
    kassert (dir.pos + sizeofDirent < dir.buflen)
    let pos := dir.pos + dent.dReclen
    kassert (pos % 4 = 0)
    return (some dent, { dir with pos := pos })

/-- Calls of `initrd_readdir` until it returns `NULL`, within `n` calls. -/
def readdirs : Nat → DirBuf → Option (List DirentFields)
  | 0, _ => none
  | n + 1, dir => do
    match ← initrdReaddir dir with
    | (none, _) => return []
    | (some dent, dir) => return dent :: (← readdirs n dir)

/-! ## What is to be read -/

/-- The records for the headers of a directory. -/
def recordsOf (dev dirInode : Nat) (hs : List (Header × Nat)) : List Dirent :=
  (hs.filter fun (h, _) => h.parent = dirInode).map fun (h, i) => h.dirent dev i

/-- The records for the entries of a directory. -/
def entries (dev dirInode : Nat) (files : List Header) : List Dirent :=
  recordsOf dev dirInode (files.zipIdx.drop (rootInode + 1))

/-- The directory can be opened and read to its end, and has `.`, `..` and each entry once. -/
def Lists (supply dev : Nat) (files : List Header) (path : Str) : Prop :=
  ∃ dirInode parentInode dir n, directoryAt files path = some (dirInode, parentInode) ∧
    initrdOpendir supply dev files path = some (some dir) ∧
    readdirs n dir = some ((dotDirent dev dirInode :: dotdotDirent dev parentInode ::
      entries dev dirInode files).map Dirent.fields)

/-! ## Filling the buffer -/

variable {dir : DirBuf} {dent : Dirent} {dents : List Dirent}

/-- The buffer while the records are added. -/
structure Filling (dir : DirBuf) (dents : List Dirent) : Prop where
  storable : ∀ dent ∈ dents, Storable dent
  packed : ∃ m, dir.buf = some m ∧ Packed m dir.buflen 0 dents
  len : dir.len = totalLen dents
  pos : dir.pos = 0

lemma totalLen_concat (dents : List Dirent) (dent : Dirent) :
    totalLen (dents ++ [dent]) = totalLen dents + dent.dReclen := by
  simp [totalLen]

lemma Filling.addDirent (filling : Filling dir dents) (storable : Storable dent)
    (room : dir.len + sizeofDirent < dir.buflen) :
    ∃ dir', Initrd.addDirent dir dent = some dir' ∧ Filling dir' (dents ++ [dent]) ∧
      dir'.buflen = dir.buflen := by
  have le := dReclen_le dent
  have ge := dReclen_ge dent
  have len := filling.len
  obtain ⟨m, buf, packed⟩ := filling.packed
  refine ⟨{ dir with buf := some (storeDirent m dir.len dent), len := dir.len + dent.dReclen },
    ?_, ?_, rfl⟩
  · have inside : dir.len + 12 + dent.dName.length + 1 ≤ dir.buflen := by
      unfold sizeofDirent at room
      omega
    simp [Initrd.addDirent, buf, kassert, inside, sizeofDirent, le]
  · have before : Memory.AgreeOn m (storeDirent m dir.len dent) 0 (0 + totalLen dents) := by
      intro b low high
      rw [storeDirent_frame m (by omega)]
    constructor
    · intro d mem
      obtain mem | rfl := by simpa using mem
      · exact filling.storable d mem
      · exact storable
    · refine ⟨_, rfl, (packed.mono before le_rfl).snoc ?_ ?_⟩
      · rw [Nat.zero_add, ← len]
        exact storable.stored m dir.len
      · rw [Nat.zero_add, ← len]
        exact room
    · rw [totalLen_concat, ← len]
    · exact filling.pos

section Entries

variable {dev dirInode i : Nat} {h : Header} {hs : List (Header × Nat)}

lemma addEntries_cons_of_ne (other : h.parent ≠ dirInode) :
    addEntries dev dirInode dir ((h, i) :: hs) = addEntries dev dirInode dir hs := by
  simp [addEntries, other]

lemma addEntries_cons (own : h.parent = dirInode) : addEntries dev dirInode dir ((h, i) :: hs) =
    (addDirent dir (h.dirent dev i)).bind fun dir => addEntries dev dirInode dir hs := by
  simp [addEntries, own]

lemma recordsOf_cons_of_ne (other : h.parent ≠ dirInode) :
    recordsOf dev dirInode ((h, i) :: hs) = recordsOf dev dirInode hs := by
  simp [recordsOf, other]

lemma recordsOf_cons (own : h.parent = dirInode) :
    recordsOf dev dirInode ((h, i) :: hs) = h.dirent dev i :: recordsOf dev dirInode hs := by
  simp [recordsOf, own]

lemma dReclen_dotDirent (dev i : Nat) : (dotDirent dev i).dReclen = 16 := by
  simp [Dirent.dReclen, dotDirent, dot, direntLen]

lemma dReclen_dotdotDirent (dev i : Nat) : (dotdotDirent dev i).dReclen = 16 := by
  simp [Dirent.dReclen, dotdotDirent, dotdot, direntLen]

lemma dReclen_dirent (dev i : Nat) (h : Header) :
    16 ≤ (h.dirent dev i).dReclen ∧ (h.dirent dev i).dReclen ≤ 76 := by
  have short : (h.dirent dev i).dName.length ≤ 63 := length_take_le _ _
  simp only [Dirent.dReclen, direntLen]
  split_ifs <;> omega

/-- All entries are added, with 76 bytes for each but the last, and a whole record for the last one.
-/
lemma Filling.addEntries (filling : Filling dir dents)
    (storable : ∀ d ∈ recordsOf dev dirInode hs, Storable d)
    (room : ∀ k < (recordsOf dev dirInode hs).length,
      dir.len + 76 * k + sizeofDirent < dir.buflen) :
    ∃ dir', Initrd.addEntries dev dirInode dir hs = some dir' ∧
      Filling dir' (dents ++ recordsOf dev dirInode hs) ∧ dir'.buflen = dir.buflen := by
  induction hs generalizing dir dents with
  | nil => exact ⟨dir, rfl, by simpa [recordsOf] using filling, rfl⟩
  | cons entry hs ih =>
    obtain ⟨h, i⟩ := entry
    by_cases own : h.parent = dirInode
    · rw [recordsOf_cons own] at storable room ⊢
      rw [addEntries_cons own]
      obtain ⟨dir₁, added, filling₁, same⟩ := filling.addDirent (storable _ mem_cons_self)
        (room 0 (by simp))
      have len₁ : dir₁.len = dir.len + (h.dirent dev i).dReclen := by
        rw [filling₁.len, totalLen_concat, filling.len]
      have most := (dReclen_dirent dev i h).2
      obtain ⟨dir', rest, filling', same'⟩ := ih filling₁
        (fun d mem => storable d (mem_cons_of_mem _ mem)) fun k lt => by
          have := room (k + 1) (by simpa using lt)
          omega
      refine ⟨dir', by rw [added]; exact rest, ?_, same'.trans same⟩
      rw [append_cons]
      exact filling'
    · rw [recordsOf_cons_of_ne own] at storable room ⊢
      rw [addEntries_cons_of_ne own]
      exact ih filling storable room

lemma addDirent_len {dir' : DirBuf} (added : addDirent dir dent = some dir') :
    dir'.buflen = dir.buflen ∧ dir'.len = dir.len + dent.dReclen ∧ dir'.len ≤ dir.buflen + 3 := by
  simp only [addDirent, bind, pure, bind_eq_some_iff, kassert_eq_some, exists_const,
    some.injEq] at added
  obtain ⟨m, -, inside, -, rfl⟩ := added
  refine ⟨rfl, rfl, ?_⟩
  simp only [Dirent.dReclen, direntLen]
  split_ifs <;> omega

lemma addEntries_len {dir' : DirBuf} (added : addEntries dev dirInode dir hs = some dir')
    (le : dir.len ≤ dir.buflen + 3) : dir'.buflen = dir.buflen ∧
      dir.len + 16 * (recordsOf dev dirInode hs).length ≤ dir'.len ∧ dir'.len ≤ dir.buflen + 3 := by
  induction hs generalizing dir with
  | nil =>
    cases added
    exact ⟨rfl, by simp [recordsOf], le⟩
  | cons entry hs ih =>
    obtain ⟨h, i⟩ := entry
    by_cases own : h.parent = dirInode
    · rw [recordsOf_cons own, length_cons]
      rw [addEntries_cons own, bind_eq_some_iff] at added
      obtain ⟨dir₁, first, rest⟩ := added
      obtain ⟨same, len, le₁⟩ := addDirent_len first
      have least := (dReclen_dirent dev i h).1
      obtain ⟨same', more, le'⟩ := ih rest (by omega)
      exact ⟨same'.trans same, by omega, by omega⟩
    · rw [recordsOf_cons_of_ne own]
      rw [addEntries_cons_of_ne own] at added
      exact ih added le

end Entries

/-! ## Reading the buffer -/

lemma Packed.total_lt {m : Memory} {buflen a : Nat} (packed : Packed m buflen a dents)
    (some_dents : dents ≠ []) : a + totalLen dents < buflen := by
  induction dents generalizing a with
  | nil => exact absurd rfl some_dents
  | cons dent dents ih =>
    obtain ⟨-, room, rest⟩ := packed
    have le := dReclen_le dent
    rw [totalLen_cons, ← Nat.add_assoc]
    by_cases last : dents = []
    · subst last
      unfold sizeofDirent at room
      change a + dent.dReclen + 0 < buflen
      omega
    · exact ih rest last

lemma Filling.reading (filling : Filling dir dents) (some_dents : dents ≠ []) :
    Reading dir dents := by
  obtain ⟨m, buf, packed⟩ := filling.packed
  have total := Packed.total_lt packed some_dents
  have len := filling.len
  have pos := filling.pos
  refine ⟨filling.storable, ⟨m, buf, pos ▸ packed⟩, by omega, by omega, by omega, ?_⟩
  obtain ⟨dent, rest, rfl⟩ := exists_cons_of_ne_nil some_dents
  have := dReclen_ge dent
  rw [len, totalLen_cons]
  omega

lemma readdirs_reading {n : Nat} (reading : Reading dir dents) (small : dir.buflen < 2 ^ 31)
    (enough : dents.length < n) : readdirs n dir = some (dents.map Dirent.fields) := by
  induction dents generalizing dir n with
  | nil =>
    obtain ⟨n, rfl⟩ := Nat.exists_eq_add_of_le' (Nat.one_le_of_lt enough)
    obtain ⟨len, last⟩ := reading.last
    have call : initrdReaddir dir = some (none, dir) := by
      simp only [initrdReaddir, if_pos last, kassert, if_pos len.symm]
      rfl
    simp [readdirs, call]
  | cons dent dents ih =>
    obtain ⟨n, rfl⟩ := Nat.exists_eq_add_of_le' (Nat.one_le_of_lt enough)
    obtain ⟨m, next⟩ := reading.next
    have call : initrdReaddir dir =
        some (some dent.fields, { dir with pos := dir.pos + dent.dReclen }) := by
      obtain ⟨left, nonzero⟩ := next.unread
      have room : (dir.len : Int) < signed32 dir.buflen := by
        rw [signed32, if_pos small]
        exact Int.ofNat_lt.mpr reading.room
      simp [initrdReaddir, left, next.buf, next.load, kassert, next.more, reading.pos,
        room, next.room, next.pos, Dirent.fields, nonzero]
    simp [readdirs, call, ih next.left small (n := n) (by simpa using enough)]

/-- A record is only returned from a buffer with room for a whole one. -/
lemma room_of_readdirs {n : Nat} {d : DirentFields} {ds : List DirentFields}
    (read : readdirs n dir = some (d :: ds)) : sizeofDirent < dir.buflen := by
  cases n with
  | zero => cases read
  | succ n =>
    simp only [readdirs, bind, pure, bind_eq_some_iff] at read
    obtain ⟨⟨_ | dent, dir'⟩, call, rest⟩ := read
    · cases rest
    · unfold initrdReaddir at call
      split at call
      · simp at call
      · simp only [bind, pure, bind_eq_some_iff, kassert_eq_some, exists_const] at call
        obtain ⟨m, -, -, -, -, -, room, -⟩ := call
        omega

/-! ## The directories of an image -/

namespace Found

variable (found : Found) {dirInode parentInode dev : Nat}

lemma header {i : Nat} {h : Header} (at_ : (createImage found.files)[i]? = some h) :
    h.inode = i ∧ (h.isDir → h.length = children found.files i) ∧ (2 ≤ i →
      h.parent < i ∧ h.name.length ≤ 63 ∧ 0 ∉ h.name) := by
  obtain ⟨f, file, parent, inode, name, dir, length⟩ := getElem?_writeHeaders at_
  have number := found.inode i f file
  refine ⟨by omega, fun h_dir => ?_, fun entry => ?_⟩
  · rw [length (dir ▸ h_dir), number]
  · rw [parent, name]
    exact ⟨(found.parent i f entry file).2.1, (found.name i f entry file).1,
      (found.name i f entry file).2.1⟩

lemma parent_lt {i : Nat} {h : Header} (at_ : (createImage found.files)[i]? = some h)
    (pos : 1 ≤ i) :
    h.parent < found.files.length := by
  obtain ⟨f, file, parent, -⟩ := getElem?_writeHeaders at_
  have lt := (List.getElem?_eq_some_iff.mp file).1
  obtain rfl | entry := eq_or_lt_of_le pos
  · obtain rfl := some.inj (found.root.symm.trans file)
    rw [parent]
    exact lt
  · have := (found.parent i f entry file).2.1
    omega

/-- What is known of a directory that has been found. -/
structure IsDirectory (dirInode parentInode : Nat) : Prop where
  pos : 1 ≤ dirInode
  parent : parentInode < found.files.length
  header : ∃ h, (createImage found.files)[dirInode]? = some h ∧ h.isDir

lemma root_isDirectory : found.IsDirectory rootInode rootInode := by
  obtain ⟨lt, -⟩ := List.getElem?_eq_some_iff.mp found.root
  have lt' : 1 < (createImage found.files).length := by
    rw [length_createImage]
    exact lt
  refine ⟨le_rfl, lt, _, getElem?_eq_getElem lt', ?_⟩
  obtain ⟨f, file, -, -, -, dir, -⟩ := getElem?_writeHeaders (getElem?_eq_getElem lt')
  obtain rfl := some.inj (found.root.symm.trans file)
  exact dir

variable {found}

lemma followTokens_isDirectory {tokens : List Str} {at_ : Nat × Nat}
    (start : found.IsDirectory at_.1 at_.2)
    (followed : followTokens (createImage found.files) at_ tokens = some (dirInode, parentInode)) :
    found.IsDirectory dirInode parentInode := by
  induction tokens generalizing at_ with
  | nil =>
    cases followed
    exact start
  | cons token rest ih =>
    obtain ⟨d, p⟩ := at_
    rw [followTokens] at followed
    cases entry : findEntry (createImage found.files) d token with
    | none => simp [entry] at followed
    | some h =>
      simp only [entry] at followed
      split at followed
      · rename_i dir
        obtain ⟨i, lt, eq⟩ := getElem_of_mem (mem_of_find?_eq_some entry)
        rw [getElem_drop] at eq
        have at_ := List.getElem?_eq_some_iff.mpr ⟨_, eq⟩
        have inode := (found.header at_).1
        refine ih ⟨?_, ?_, h, ?_, dir⟩ followed
        · omega
        · exact found.parent_lt at_ (Nat.le_add_right 1 i)
        · rw [inode, at_]
      · cases followed

lemma directoryAt_isDirectory {path : Str}
    (opened : directoryAt (createImage found.files) path = some (dirInode, parentInode)) :
    found.IsDirectory dirInode parentInode :=
  followTokens_isDirectory found.root_isDirectory opened

lemma children_eq (dev : Nat) (pos : 1 ≤ dirInode) : children found.files dirInode =
    (entries dev dirInode (createImage found.files)).length +
      if dirInode = rootInode then 1 else 0 := by
  have parents : ∀ l : List (Header × Nat), (recordsOf dev dirInode l).length =
      ((l.map Prod.fst).map Header.parent).countP (· = dirInode) := by
    intro l
    simp [recordsOf, List.countP_eq_length_filter, List.filter_map, Function.comp_def]
  have split : found.files = ⟨0, 0, [], true, []⟩ :: ⟨1, 1, [slash], true, []⟩ ::
    found.files.drop 2 := by
    have null := found.null
    have root := found.root
    rcases eq : found.files with _ | ⟨f₀, _ | ⟨f₁, rest⟩⟩ <;> simp_all
  have other : (0 : Nat) ≠ dirInode := by omega
  rw [entries, parents, map_drop, map_drop, zipIdx_map_fst, createImage,
    map_parent_writeHeaders, ← map_drop, countP_map, children]
  nth_rewrite 1 [split]
  simp [countP_cons, other, rootInode, Function.comp_def, eq_comm (a := dirInode)]

lemma storable_entries (dev dirInode : Nat) :
    ∀ d ∈ entries dev dirInode (createImage found.files), Storable d := by
  intro d mem
  have few := found.few
  simp only [entries, recordsOf, List.mem_map, List.mem_filter, Prod.exists] at mem
  obtain ⟨h, i, ⟨mem, -⟩, rfl⟩ := mem
  obtain ⟨k, lt, eq⟩ := getElem_of_mem mem
  rw [getElem_drop, getElem_zipIdx] at eq
  obtain ⟨header_eq, rfl⟩ := Prod.mk.inj eq
  have at_ := List.getElem?_eq_some_iff.mpr ⟨_, header_eq⟩
  have bound := (List.getElem?_eq_some_iff.mp at_).1
  rw [length_createImage] at bound
  have name := ((found.header at_).2.2 (by unfold rootInode; omega)).2.2
  refine ⟨?_, Nat.mod_lt _ (by decide), fun zero => name (mem_of_mem_take zero)⟩
  change 0 + (rootInode + 1 + k) < wordSize
  unfold wordSize
  omega

lemma storable_dots {found : Found} (h : found.IsDirectory dirInode parentInode) (dev : Nat) :
    Storable (dotDirent dev dirInode) ∧ Storable (dotdotDirent dev parentInode) := by
  have few := found.few
  have bound : dirInode < found.files.length := by
    obtain ⟨h, at_, -⟩ := h.header
    rw [← length_createImage]
    exact (List.getElem?_eq_some_iff.mp at_).1
  have parent := h.parent
  have word : 2 ^ 31 < wordSize := by decide
  have dev_lt := Nat.mod_lt dev (show 65536 > 0 by decide)
  have clean : 0 ∉ dot ∧ 0 ∉ dotdot := by decide
  refine ⟨⟨?_, dev_lt, clean.1⟩, ⟨?_, dev_lt, clean.2⟩⟩
  · exact (bound.trans few).trans word
  · exact (parent.trans few).trans word

/-- The records fit if the directory has an entry and the buffer can be allocated. -/
lemma openInode_filling (supply dev : Nat) (dir : found.IsDirectory dirInode parentInode)
    (some_children : 0 < children found.files dirInode)
    (fits : children found.files dirInode * bytesPerEntry + sizeofDirent ≤ supply)
    (limit : supply < 2 ^ 28) : ∃ buf,
      openInode supply dev (createImage found.files) dirInode parentInode = some buf ∧
      Filling buf (dotDirent dev dirInode :: dotdotDirent dev parentInode ::
        entries dev dirInode (createImage found.files)) ∧ buf.buflen < 2 ^ 31 := by
  obtain ⟨h, at_, is_dir⟩ := dir.header
  have length := (found.header at_).2.1 is_dir
  have count := found.children_eq dev dir.pos
  obtain ⟨storable, storable'⟩ := storable_dots dir dev
  have no_wrap : (h.length * bytesPerEntry + sizeofDirent) % wordSize =
      children found.files dirInode * bytesPerEntry + sizeofDirent := by
    rw [length, Nat.mod_eq_of_lt]
    unfold wordSize
    omega
  have larger (k : Nat) (lt : k < 112 * children found.files dirInode) :
      k + sizeofDirent < children found.files dirInode * bytesPerEntry + sizeofDirent := by
    have per_entry : bytesPerEntry = 112 := rfl
    rw [per_entry]
    omega
  let empty : DirBuf :=
    ⟨some fun _ => 0, children found.files dirInode * bytesPerEntry + sizeofDirent, 0, 0⟩
  have filling : Filling empty [] := ⟨by simp, ⟨_, rfl, trivial⟩, rfl, rfl⟩
  obtain ⟨dir₁, added₁, filling₁, same₁⟩ := filling.addDirent storable (larger 0 (by omega))
  have len₁ : dir₁.len = 16 := by
    rw [filling₁.len, totalLen_concat, dReclen_dotDirent]
    rfl
  obtain ⟨dir₂, added₂, filling₂, same₂⟩ := filling₁.addDirent storable' (by
    rw [len₁, same₁]
    exact larger 16 (by omega))
  have len₂ : dir₂.len = 32 := by
    rw [filling₂.len, totalLen_concat, dReclen_dotdotDirent, ← filling₁.len, len₁]
  obtain ⟨dir₃, added₃, filling₃, same₃⟩ := filling₂.addEntries
    (found.storable_entries dev dirInode) (by
      intro k lt
      change k < (entries dev dirInode (createImage found.files)).length at lt
      rw [len₂, same₂, same₁]
      exact larger (32 + 76 * k) (by omega))
  have buflen : dir₃.buflen = children found.files dirInode * bytesPerEntry + sizeofDirent :=
    same₃.trans (same₂.trans same₁)
  refine ⟨dir₃, ?_, filling₃, by omega⟩
  rw [openInode, at_]
  simp only [bind, bind_some, no_wrap, kassert, if_pos fits]
  rw [added₁, bind_some, added₂, bind_some, added₃]

/-- The buffer of an opened directory has the size for its entries: no overflow has made it smaller.
-/
lemma openInode_len {supply : Nat} {buf : DirBuf} (dir : found.IsDirectory dirInode parentInode)
    (opened : openInode supply dev (createImage found.files) dirInode parentInode = some buf)
    (limit : supply < 2 ^ 28) :
    children found.files dirInode * bytesPerEntry + sizeofDirent ≤ supply ∧
      buf.buflen = children found.files dirInode * bytesPerEntry + sizeofDirent := by
  obtain ⟨h, at_, is_dir⟩ := dir.header
  have length := (found.header at_).2.1 is_dir
  have count := found.children_eq dev dir.pos
  simp only [openInode, at_, bind, bind_some, bind_eq_some_iff, kassert_eq_some,
    exists_const] at opened
  obtain ⟨le, dir₁, added₁, dir₂, added₂, added₃⟩ := opened
  obtain ⟨same₁, -, -⟩ := addDirent_len added₁
  obtain ⟨same₂, len₂, le₂⟩ := addDirent_len added₂
  obtain ⟨same₃, more, most⟩ := addEntries_len added₃ (by omega)
  have per_entry : bytesPerEntry = 112 := rfl
  have record : sizeofDirent = 268 := rfl
  change dir₂.len + 16 * (entries dev dirInode (createImage found.files)).length ≤ buf.len at more
  rw [length] at le same₁
  have few : (entries dev dirInode (createImage found.files)).length < 2 ^ 24 + 1 := by
    dsimp only at same₁
    omega
  have no_wrap : (children found.files dirInode * bytesPerEntry + sizeofDirent) % wordSize =
      children found.files dirInode * bytesPerEntry + sizeofDirent := by
    refine Nat.mod_eq_of_lt ?_
    rw [per_entry, record, wordSize]
    split at count <;> omega
  rw [no_wrap] at le same₁
  exact ⟨le, same₃.trans (same₂.trans same₁)⟩

end Found

/-- A directory can be opened and read to its end, exactly if its header has an entry and there is
memory for the buffer. -/
theorem lists_iff (found : Found) {supply dev dirInode parentInode : Nat} {path : Str}
    (limit : supply ≤ KHeap.kheapMaxAddr - KHeap.kheapStart)
    (opened : directoryAt (createImage found.files) path = some (dirInode, parentInode)) :
    Lists supply dev (createImage found.files) path ↔
      (dirInode = rootInode ∨ entries dev dirInode (createImage found.files) ≠ []) ∧
        children found.files dirInode * bytesPerEntry + sizeofDirent ≤ supply := by
  have limit : supply < 2 ^ 28 := by
    unfold KHeap.kheapMaxAddr KHeap.kheapStart at limit
    omega
  have dir := Found.directoryAt_isDirectory opened
  have count := found.children_eq dev dir.pos
  have some_children : 0 < children found.files dirInode ↔
      dirInode = rootInode ∨ entries dev dirInode (createImage found.files) ≠ [] := by
    rw [count, ← length_pos_iff]
    split <;> simp_all
  have opendir : initrdOpendir supply dev (createImage found.files) path =
      (openInode supply dev (createImage found.files) dirInode parentInode).map some := by
    rw [initrdOpendir, opened]
  rw [← some_children]
  constructor
  · rintro ⟨d, p, buf, n, opened', ran, read⟩
    rw [opendir, map_eq_some_iff] at ran
    obtain ⟨_, ran, eq⟩ := ran
    cases eq
    obtain ⟨fits, buflen⟩ := Found.openInode_len dir ran limit
    have room := room_of_readdirs read
    refine ⟨Nat.pos_of_ne_zero fun empty => ?_, fits⟩
    rw [buflen, empty] at room
    omega
  · rintro ⟨some_children, fits⟩
    obtain ⟨buf, ran, filling, small⟩ := found.openInode_filling supply dev dir
      some_children fits limit
    refine ⟨dirInode, parentInode, buf, (entries dev dirInode (createImage found.files)).length + 3,
      opened, by rw [opendir, ran]; rfl, ?_⟩
    exact readdirs_reading (filling.reading (by simp)) small (Nat.lt_succ_self _)

/-- An initrd with the directory `a`, which is empty. -/
def emptyDir : Found where
  files := [⟨0, 0, [], true, []⟩, ⟨1, 1, [slash], true, []⟩, ⟨1, 2, [0x61], true, []⟩]
  few := by decide
  null := rfl
  root := rfl
  inode i f at_ := by
    match i with
    | 0 | 1 | 2 => cases at_; rfl
    | i + 3 => simp at at_
  parent i f entry at_ := by
    match i with
    | 2 => cases at_; exact ⟨by decide, by decide, _, rfl, rfl⟩
    | i + 3 => simp at at_
  name i f entry at_ := by
    match i with
    | 2 => cases at_; decide
    | i + 3 => simp at at_

/-- The root directory of this initrd can be read. -/
theorem lists_root : Lists 0x10000 0 (createImage emptyDir.files) [slash] := by
  have opened : directoryAt (createImage emptyDir.files) [slash] = some (1, 1) := by decide
  exact (lists_iff emptyDir (by decide) opened).mpr (by decide)

/-- In an empty directory the first call of `initrd_readdir` fails an assertion. -/
theorem empty_dir_fails : ∃ dir, initrdOpendir 0x10000 0 (createImage emptyDir.files)
    [slash, 0x61] = some (some dir) ∧ initrdReaddir dir = none := by
  refine ⟨_, rfl, ?_⟩
  decide +kernel

end ExscapeOS.Initrd
