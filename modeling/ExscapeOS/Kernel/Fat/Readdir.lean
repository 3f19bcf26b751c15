import ExscapeOS.Kernel.Fat.DirBuf
import ExscapeOS.Kernel.Fat.LongName

/-!
# Listing a directory

A directory is a sequence of items: deleted entries, labels, and entries for files and directories,
with a long name or without one. `fat_readdir` returns a record for each file and directory, and
before them `.` and `..` if the directory is the root.
-/
namespace ExscapeOS.Fat

open Lib List Option

/-! ## Well-formed directories -/

namespace Direntry

/-- The short name has seven-bit characters and starts with no space. -/
def SevenBit (e : Direntry) : Prop := e 0 ≠ 0x20 ∧ ∀ c ∈ e.name, 0x20 ≤ c ∧ c < 0x80

/-- Eight characters without the spaces at their end, and the extension up to a space. -/
def shortName (e : Direntry) : Name :=
  let base := (e.name.take 8).rdropWhile (· = 0x20)
  let ext := (e.name.drop 8).takeWhile (· ≠ 0x20)
  base ++ if ext = [] then [] else 0x2e :: ext

/-- The entry of a file or a directory. -/
structure Live (e : Direntry) : Prop where
  valid : e 0 ≠ 0
  shown : ¬ e.hidden
  sevenBit : e.SevenBit

/-- The record for an entry. `..` of a directory in the root has cluster 0. -/
def listed (root dev : Nat) (e : Direntry) (name : Name) : DirentFields where
  dIno := if e.dataCluster = 0 ∧ e.shortName = [0x2e, 0x2e] then root else e.dataCluster
  dDev := dev
  dReclen := direntLen name.length
  dType := if e.isDir then 4 else 8
  dNamlen := name.length
  dName := name

end Direntry

inductive Item where
  | deleted (e : Direntry)
  | label (e : Direntry)
  | short (e : Direntry)
  | long (name : List UInt16) (es : List Direntry) (e : Direntry)

namespace Item

def entries : Item → List Direntry
  | .deleted e | .label e | .short e => [e]
  | .long _ es e => es ++ [e]

def WellFormed : Item → Prop
  | .deleted e => e 0 = 0xe5
  | .label e => e 0 ≠ 0 ∧ e 0 ≠ 0xe5 ∧ e.attrib &&& 0x08 ≠ 0 ∧ e.attrib ≠ 0x0f
  | .short e => e.Live
  | .long name es e => LongName name ∧ EncodesLfn name es ∧ e.Live

/-- The record for an item. -/
def listed (root dev : Nat) : Item → Option DirentFields
  | .deleted _ | .label _ => none
  | .short e => some (e.listed root dev e.shortName)
  | .long name _ e => some (e.listed root dev (asciiName name))

end Item

/-! ## Short names -/

lemma takeWhile_congr_of_mem {α : Type} {p q : α → Bool} {l : List α} (h : ∀ a ∈ l, p a = q a) :
    l.takeWhile p = l.takeWhile q := by
  induction l with
  | nil => rfl
  | cons a l ih =>
    obtain ⟨first, rest⟩ := forall_mem_cons.mp h
    rw [takeWhile_cons, takeWhile_cons, first, ih rest]

lemma Direntry.SevenBit.fatParseShortName {e : Direntry} (h : e.SevenBit) :
    fatParseShortName e.name = some e.shortName := by
  obtain ⟨not_space, chars⟩ := h
  obtain ⟨tail, name⟩ : ∃ tail, e.name = e 0 :: tail := ⟨_, rfl⟩
  have first := chars (e 0) (by simp [name])
  have nonzero : e 0 ≠ 0 := fun zero => absurd first.1 (by simp [zero])
  have not_five : e 0 ≠ 0x05 := fun five => absurd first.1 (by simp [five])
  have shown : visible (e 0) = true := by
    simp only [visible, decide_eq_true_eq]
    exact ⟨UInt8.lt_of_le_of_ne first.1 (Ne.symm not_space), first.2⟩
  have ext : (e.name.drop 8).takeWhile visible = (e.name.drop 8).takeWhile (· ≠ 0x20) := by
    refine takeWhile_congr_of_mem fun c mem => ?_
    have char := chars c (mem_of_mem_drop mem)
    simp only [visible, char.2, and_true, decide_eq_decide]
    exact ⟨fun lt => (UInt8.ne_of_lt lt).symm, fun ne => UInt8.lt_of_le_of_ne char.1 (Ne.symm ne)⟩
  have clean : 0 ∉ e.shortName := by
    intro mem
    have zero : (0 : UInt8) ∉ e.name := fun mem => absurd (chars 0 mem).1 (by decide)
    obtain mem | mem := mem_append.mp mem
    · have mem := rdropWhile_prefix _ _ |>.subset mem
      exact zero (mem_of_mem_take mem)
    · split_ifs at mem
      · cases mem
      · obtain dot | mem := mem_cons.mp mem
        · exact absurd dot (by decide)
        · have mem := takeWhile_prefix _ |>.subset mem
          exact zero (mem_of_mem_drop mem)
  have whole : e.shortName.takeWhile (· ≠ 0) = e.shortName := by
    rw [takeWhile_eq_self_iff]
    intro c mem
    have ne : c ≠ 0 := fun zero => clean (zero ▸ mem)
    simpa using ne
  rw [name]
  simp only [Fat.fatParseShortName, nonzero, shown, not_five, tail_cons, true_or,
    not_true_eq_false, if_false]
  rw [← name, ext]
  exact congrArg some whole

lemma Direntry.SevenBit.length_shortName (e : Direntry) : e.shortName.length ≤ 255 := by
  have base := rdropWhile_prefix (fun c : UInt8 => decide (c = 0x20)) (e.name.take 8) |>.length_le
  have ext := takeWhile_prefix (l := e.name.drop 8) (fun c => decide (c ≠ 0x20)) |>.length_le
  rw [length_take] at base
  have len : e.name.length = 11 := by simp [name]
  rw [length_drop, len] at ext
  simp only [shortName, length_append]
  split_ifs
  · simp only [length_nil]
    omega
  · simp only [length_cons]
    omega

/-! ## The records of a directory -/

/-- The record for an entry that is known under a name. -/
def Direntry.record (root dev : Nat) (e : Direntry) (name : Name) : Dirent where
  dIno := if e.dataCluster = 0 ∧ e.shortName = [0x2e, 0x2e] then root else e.dataCluster
  dDev := dev
  dType := if e.isDir then .dir else .reg
  dName := name.take 255
  short := length_take_le _ _

/-- The record for an item. An entry without a long name gets the pending one. -/
def Item.record (root dev : Nat) (pending : Option Name) : Item → Option Dirent
  | .deleted _ | .label _ => none
  | .short e => some (e.record root dev (pending.getD e.shortName))
  | .long name _ e => some (e.record root dev (asciiName name))

/-- The records of all items. A pending name is gone after the first. -/
def records (root dev : Nat) (pending : Option Name) : List Item → List Dirent
  | [] => []
  | item :: items =>
    match item.record root dev pending with
    | none => records root dev pending items
    | some dent => dent :: records root dev none items

section

variable {root dev : Nat} {p : Parse (List Dirent)} {item : Item} {items : List Item}

lemma Direntry.fields_record (e : Direntry) {name : Name} (short : name.length ≤ 255) :
    (e.record root dev name).fields = e.listed root dev name := by
  have whole : name.take 255 = name := take_of_length_le short
  simp only [Dirent.fields, record, listed, Dirent.dReclen, whole]
  congr 1
  split_ifs <;> rfl

lemma Item.WellFormed.fields_record (wellFormed : item.WellFormed) :
    (item.record root dev none).map Dirent.fields = item.listed root dev := by
  cases item with
  | deleted e => rfl
  | label e => rfl
  | short e =>
    exact congrArg some (e.fields_record (Direntry.SevenBit.length_shortName e))
  | long name es e =>
    have le := wellFormed.1.le
    refine congrArg some (e.fields_record ?_)
    rw [asciiName, length_map]
    omega

lemma fields_records (wellFormed : ∀ item ∈ items, item.WellFormed) :
    (records root dev none items).map Dirent.fields =
      items.filterMap (Item.listed root dev) := by
  induction items with
  | nil => rfl
  | cons item items ih =>
    obtain ⟨first, others⟩ := forall_mem_cons.mp wellFormed
    rw [records, filterMap_cons, ← first.fields_record]
    cases item.record root dev none with
    | none => exact ih others
    | some dent => simp [ih others]

/-- A pending name changes nothing but names. -/
lemma length_records (pending : Option Name) :
    (records root dev pending items).length = (records root dev none items).length := by
  induction items with
  | nil => rfl
  | cons item items ih =>
    cases item with
    | deleted e => exact ih
    | label e => exact ih
    | short e => rfl
    | long name es e => rfl

/-- The records before the first one for an item. -/
def begun (root dev ino : Nat) (dents : List Dirent) : List Dirent :=
  if dents = [] ∧ ino = root then dots root dev else dents

lemma Direntry.Live.call (root dev ino : Nat) {e : Direntry} (live : e.Live) (lfn : Option Name)
    (dents : List Dirent) : fatCallbackCreateDentries root dev ino dents e lfn =
      some (begun root dev ino dents ++ [e.record root dev (lfn.getD e.shortName)], true) := by
  simp only [fatCallbackCreateDentries, live.sevenBit.fatParseShortName, map_some, begun]
  rfl

lemma Item.WellFormed.parse (root dev ino : Nat) (wellFormed : item.WellFormed)
    (p : Parse (List Dirent)) (rest : List Direntry) : ∃ p' : Parse (List Dirent),
    parseEntries (fatCallbackCreateDentries root dev ino) (item.entries ++ rest) p =
      parseEntries (fatCallbackCreateDentries root dev ino) rest p' ∧
    match item.record root dev p.statics.lfn with
    | none => p' = p
    | some dent => p'.data = begun root dev ino p.data ++ [dent] ∧ p'.statics.haveLfn = false := by
  cases item with
  | deleted e =>
    have deleted : e 0 = 0xe5 := wellFormed
    exact ⟨p, by simp [entries, parseEntries, parseEntry, deleted], rfl⟩
  | label e =>
    obtain ⟨valid, live, label⟩ := wellFormed
    refine ⟨p, ?_, rfl⟩
    rw [entries, singleton_append, parseEntries, if_neg valid, parseEntry, if_neg live,
      if_pos label]
    rfl
  | short e =>
    have live : e.Live := wellFormed
    refine ⟨⟨{ p.statics with haveLfn := p.statics.haveLfn && !true }, _,
      p.calls ++ [(e, p.statics.lfn)]⟩, ?_, rfl, Bool.and_false _⟩
    rw [entries, singleton_append, parseEntries, if_neg live.valid, parseEntry_live live.shown,
      live.call]
    rfl
  | long name es e =>
    obtain ⟨long, encodes, live⟩ := wellFormed
    obtain ⟨s, parsed⟩ := parseEntries_longName (fatCallbackCreateDentries root dev ino) p
      long encodes live.valid live.shown rest
    refine ⟨⟨{ s with haveLfn := !true }, _, p.calls ++ [(e, some (asciiName name))]⟩, ?_, rfl, rfl⟩
    rw [entries, append_assoc, singleton_append, parsed, live.call]
    rfl

lemma parse_items (root dev ino : Nat) (wellFormed : ∀ item ∈ items, item.WellFormed)
    (p : Parse (List Dirent)) (rest : List Direntry) : ∃ p' : Parse (List Dirent),
    parseEntries (fatCallbackCreateDentries root dev ino) (items.flatMap Item.entries ++ rest) p =
      parseEntries (fatCallbackCreateDentries root dev ino) rest p' ∧
    (records root dev p.statics.lfn items = [] → p' = p) ∧
    (records root dev p.statics.lfn items ≠ [] → p'.statics.haveLfn = false ∧
      p'.data = begun root dev ino p.data ++ records root dev p.statics.lfn items) := by
  induction items generalizing p with
  | nil => exact ⟨p, rfl, fun _ => rfl, fun h => absurd rfl h⟩
  | cons item items ih =>
    obtain ⟨first, others⟩ := forall_mem_cons.mp wellFormed
    obtain ⟨q, parsed, record⟩ := first.parse root dev ino p (items.flatMap Item.entries ++ rest)
    obtain ⟨p', parsed', empty, some_left⟩ := ih others q
    refine ⟨p', by rw [flatMap_cons, append_assoc, parsed, parsed'], ?_⟩
    rw [records]
    cases listed : item.record root dev p.statics.lfn with
    | none =>
      rw [listed] at record
      obtain rfl := record
      exact ⟨empty, some_left⟩
    | some dent =>
      rw [listed] at record
      obtain ⟨data, clean⟩ := record
      have none_pending : q.statics.lfn = none := by simp [Statics.lfn, clean]
      have same : begun root dev ino q.data = q.data := by simp [begun, data]
      rw [none_pending] at empty some_left
      refine ⟨fun empty => absurd empty (cons_ne_nil _ _), fun _ => ?_⟩
      by_cases last : records root dev none items = []
      · rw [empty last, last]
        exact ⟨clean, data⟩
      · obtain ⟨clean', data'⟩ := some_left last
        exact ⟨clean', by rw [data', same, data, append_assoc]; rfl⟩

end

/-- The directory at a cluster: its items, and what is behind them. -/
structure DiskDir (part : Partition) (ino : Nat) where
  clusters : List Nat
  items : List Item
  ending : List Direntry
  chain : Clusters part ino clusters
  readable : part.readable ino
  entries : clusters.flatMap part.direntries = items.flatMap Item.entries ++ ending
  wellFormed : ∀ item ∈ items, item.WellFormed
  ends : ∀ e ∈ ending.head?, e 0 = 0

namespace DiskDir

variable {part : Partition} {ino : Nat} (dir : DiskDir part ino)

/-- The records of the directory, if a long name is pending. The root gets `.` and `..`, if it has
other entries. -/
def records (root dev : Nat) (pending : Option Name) : List Dirent :=
  let dents := Fat.records root dev pending dir.items
  if dents = [] then [] else begun root dev ino [] ++ dents

lemma length_records (root dev : Nat) (pending : Option Name) :
    (dir.records root dev pending).length = (dir.records root dev none).length := by
  have same : (Fat.records root dev pending dir.items).length = _ := Fat.length_records pending
  have empty : Fat.records root dev pending dir.items = [] ↔
    Fat.records root dev none dir.items = [] := by
    rw [← length_eq_zero_iff, same, length_eq_zero_iff]
  simp only [records, empty]
  split_ifs
  · rfl
  · rw [length_append, length_append, same]

lemma parse (root dev : Nat) {fuel : Nat} (enough : dir.clusters.length ≤ fuel) (s : Statics) :
    ∃ p, OpenDir.parse ⟨part, root, dev, ino⟩ fuel s = some (some p) ∧
      p.data = dir.records root dev s.lfn ∧
      (p.data = [] ∧ p.statics = s ∨ p.statics.haveLfn = false) := by
  obtain ⟨p, parsed, empty, some_left⟩ :=
    parse_items root dev ino dir.wellFormed (.start s []) dir.ending
  -- the end of the directory or of its last cluster
  have last : (parseEntries (fatCallbackCreateDentries root dev ino) dir.ending p).map Prod.fst =
      some p := by
    cases ending : dir.ending with
    | nil => rfl
    | cons e rest =>
      have zero : e 0 = 0 := dir.ends e (by rw [ending]; rfl)
      rw [parseEntries, if_pos zero]
      rfl
  refine ⟨p, ?_, ?_⟩
  · rw [OpenDir.parse, fatParseDir_clusters dir.chain dir.readable enough,
      dir.entries, parsed, last]
  · by_cases none_left : Fat.records root dev s.lfn dir.items = []
    · obtain rfl := empty none_left
      exact ⟨by rw [records, if_pos none_left]; rfl, .inl ⟨rfl, rfl⟩⟩
    · obtain ⟨clean, data⟩ := some_left none_left
      exact ⟨by rw [records, if_neg none_left, data]; rfl, .inr clean⟩

lemma fills (heap : Nat → Memory) {root dev fuel : Nat} (root_lt : root < wordSize)
    (dev_lt : dev < 65536) (enough : dir.clusters.length ≤ fuel) (s : Statics) :
    ∃ q, fatParseDir fuel part (createDentries heap root dev ino) ino s .opened = some (some q) ∧
      Filled q.data (dir.records root dev s.lfn) := by
  obtain ⟨p, parsed, data, -⟩ := dir.parse root dev enough s
  rw [OpenDir.parse, fatParseDir_clusters dir.chain dir.readable enough] at parsed
  obtain ⟨r, listed, rfl⟩ := map_eq_some_iff.mp (some.inj parsed)
  have start : Filled .opened [] := ⟨by simp, fun _ => rfl, nofun, rfl, nofun, rfl⟩
  have called (buf : DirBuf) (dents : List Dirent) (e : Direntry) (lfn : Option Name)
      (filled : Filled buf dents) (long : ∀ name, lfn = some name → 0 ∉ name) :=
    createDentries_lockstep heap ino root_lt dev_lt filled e long
  have same : (Parse.start s DirBuf.opened).statics = (Parse.start s ([] : List Dirent)).statics :=
    rfl
  have both := parseEntries_lockstep called (dir.clusters.flatMap part.direntries) same start
  rw [fatParseDir_clusters dir.chain dir.readable enough]
  rw [listed] at both
  generalize parseEntries (createDentries heap root dev ino) _ _ = x at both
  cases both with
  | both related => exact ⟨_, rfl, data ▸ related.1.2⟩

end DiskDir

namespace OpenDir

variable {file : OpenDir} {heap : Nat → Memory} {fuel n : Nat} {s : Statics}

lemma fatReaddir_opened {q : Parse DirBuf} {dents : List Dirent}
    (parsed : fatParseDir fuel file.part (createDentries heap file.root file.dev file.ino)
      file.ino s .opened = some (some q))
    (filled : Filled q.data dents) (some_dents : dents ≠ []) :
    file.fatReaddir heap fuel (s, .opened) = file.fatReaddir heap fuel (q.statics, q.data) := by
  obtain ⟨m, buf, -⟩ := filled.packed some_dents
  have pos := filled.pos
  have left : ¬ (q.data.len ≠ 0 ∧ q.data.len ≤ q.data.pos) := by omega
  have empty : DirBuf.opened.buf.isNone = true := rfl
  have start : DirBuf.opened.pos = 0 ∧ DirBuf.opened.len = 0 := ⟨rfl, rfl⟩
  simp [fatReaddir, left, empty, start, kassert, parsed, buf]

/-- Calls of `fat_readdir` on a well-formed directory, with no long name left over, return a record
for each item that has one, and then `NULL`. No assertion fails. -/
theorem readdirs_items {cs : List Nat} {items : List Item} {ending : List Direntry}
    (root_lt : file.root < wordSize) (dev_lt : file.dev < 65536)
    (chain : Clusters file.part file.ino cs) (readable : file.part.readable file.ino)
    (clusters : cs.length ≤ fuel)
    (entries : cs.flatMap file.part.direntries = items.flatMap Item.entries ++ ending)
    (wellFormed : ∀ item ∈ items, item.WellFormed) (ends : ∀ e ∈ ending.head?, e 0 = 0)
    (live : items.filterMap (Item.listed file.root file.dev) ≠ []) (clean : s.haveLfn = false)
    (calls : items.length + 2 < n) :
    file.readdirs heap fuel n (s, .opened) =
      some ((if file.ino = file.root then (dots file.root file.dev).map Dirent.fields else []) ++
        items.filterMap (Item.listed file.root file.dev)) := by
  let dir : DiskDir file.part file.ino :=
    ⟨cs, items, ending, chain, readable, entries, wellFormed, ends⟩
  obtain ⟨q, parsed, filled⟩ := dir.fills heap root_lt dev_lt clusters s
  have none_pending : s.lfn = none := by simp [Statics.lfn, clean]
  have fields : (records file.root file.dev none items).map Dirent.fields = _ :=
    fields_records wellFormed
  have some_items : records file.root file.dev none items ≠ [] := by
    intro empty
    rw [empty] at fields
    exact live fields.symm
  have dents : dir.records file.root file.dev none =
      begun file.root file.dev file.ino [] ++ records file.root file.dev none items :=
    if_neg some_items
  rw [none_pending, dents] at filled
  have some_dents := append_ne_nil_of_right_ne_nil (begun file.root file.dev file.ino []) some_items
  have count : (begun file.root file.dev file.ino [] ++
      records file.root file.dev none items).length < n := by
    have len := congrArg List.length fields
    have le := length_filterMap_le (Item.listed file.root file.dev) items
    rw [length_map] at len
    rw [length_append, begun]
    split_ifs
    · simp only [dots, length_cons, length_nil]
      omega
    · simp only [length_nil]
      omega
  obtain ⟨n, rfl⟩ := Nat.exists_eq_add_of_le' (Nat.one_le_of_lt count)
  have same : file.readdirs heap fuel (n + 1) (s, .opened) =
      file.readdirs heap fuel (n + 1) (q.statics, q.data) := by
    rw [readdirs, readdirs, fatReaddir_opened parsed filled some_dents]
  rw [same, file.readdirs_reading (filled.reading some_dents) count, map_append, fields]
  congr 2
  by_cases isRoot : file.ino = file.root
  · simp [begun, isRoot]
  · simp [begun, isRoot]

/-- The root directory with the file `long.text`. -/
theorem readdirs_longName : ∃ items : List Item, (∀ item ∈ items, item.WellFormed) ∧
    OpenDir.readdirs ⟨longName, 2, 0, 2⟩ (fun _ _ => 0xff) 1 4 (.boot, .opened) =
      some ((dots 2 0).map Dirent.fields ++ items.filterMap (Item.listed 2 0)) ∧
    (items.filterMap (Item.listed 2 0)).map DirentFields.dName = [longText] := by
  let e (i : Nat) : Direntry := fun j => longName.data 2 (i * 32 + j)
  obtain ⟨rest, entries⟩ : ∃ rest, longName.direntries 2 = [e 0, e 1] ++ e 2 :: rest := ⟨_, rfl⟩
  have wellFormed : (Item.long longUnits [e 0] (e 1)).WellFormed :=
    ⟨longUnits_longName, .cons (by decide +kernel) (by decide +kernel) (by decide +kernel) .nil,
      by decide +kernel, by decide +kernel, by decide +kernel, by decide +kernel⟩
  have all : ∀ item ∈ [Item.long longUnits [e 0] (e 1)], item.WellFormed := by
    simpa using wellFormed
  have ends : ∀ e' ∈ (e 2 :: rest).head?, e' 0 = 0 := by
    intro e' mem
    obtain rfl : e 2 = e' := by simpa using mem
    rfl
  have chain : Clusters longName 2 [2] := .last (by decide +kernel)
  refine ⟨_, all, ?_, rfl⟩
  exact readdirs_items (by decide) (by decide) chain rfl le_rfl
    ((append_nil _).trans entries) all ends (by simp [Item.listed]) rfl (by decide)

end OpenDir

end ExscapeOS.Fat
