/-
Purpose: The kernel finds in the image of mkfs what the host has: every path
  leads to an inode of the right type, and a file has the bytes it has on the
  host.
-/
import Xv6.Proofs.MkfsWellFormed
import Xv6.Proofs.FsWalk

namespace Xv6

open Entries Fs Mkfs

/-- What the host has under a path. -/
inductive Host where
  | file (bytes : List UInt8)
  | dir

namespace Entries

/-- The directory has something under a path; the empty path is the directory
itself. -/
inductive Contains : Entries → List (List UInt8) → Host → Prop where
  | self (entries : Entries) : Contains entries [] .dir
  | file (name bytes : List UInt8) (rest : Entries) :
      Contains (.file name bytes rest) [name] (.file bytes)
  | dir (name : List UInt8) {children : Entries} (rest : Entries)
      {path : List (List UInt8)} {host : Host}
      (below : Contains children path host) :
      Contains (.dir name children rest) (name :: path) host
  | afterFile (name bytes : List UInt8) {rest : Entries} {first : List UInt8}
      {path : List (List UInt8)} {host : Host}
      (later : Contains rest (first :: path) host) :
      Contains (.file name bytes rest) (first :: path) host
  | afterDir (name : List UInt8) (children : Entries) {rest : Entries}
      {first : List UInt8} {path : List (List UInt8)} {host : Host}
      (later : Contains rest (first :: path) host) :
      Contains (.dir name children rest) (first :: path) host

/-- The names are names of the host, of at most 14 bytes, and in each
directory different from each other. -/
def Legal : Entries → Prop
  | .nil => True
  | .file name _ rest =>
    (Name name ∧ name.length ≤ DIRSIZ) ∧ name ∉ rest.names ∧ rest.Legal
  | .dir name children rest =>
    (Name name ∧ name.length ≤ DIRSIZ) ∧ name ∉ rest.names ∧ children.Legal ∧ rest.Legal

/-- Every file has at most `MAXFILE` blocks. -/
def FilesSmall : Entries → Prop
  | .nil => True
  | .file _ bytes rest => bytes.length ≤ MAXFILE * 512 ∧ rest.FilesSmall
  | .dir _ children rest => children.FilesSmall ∧ rest.FilesSmall

theorem FilesSmall.small {entries : Entries} (files : entries.FilesSmall)
    (few : entries.count ≤ NINODES) : entries.Small := by
  induction entries with
  | nil => trivial
  | file name bytes rest ih =>
    simp only [count] at few
    exact ⟨files.1, ih files.2 (by omega)⟩
  | dir name children rest ihChildren ihRest =>
    simp only [count] at few
    have number := children.number_le_count
    refine ⟨?_, ihChildren files.1 (by omega), ihRest files.2 (by omega)⟩
    have bound : NINODES = 200 ∧ MAXFILE * 512 = 71680 := ⟨rfl, rfl⟩
    omega

namespace Legal

variable {entries : Entries}

theorem name (legal : entries.Legal) {name : List UInt8}
    (mem : name ∈ entries.names) : Name name ∧ name.length ≤ DIRSIZ := by
  induction entries with
  | nil => cases mem
  | file first bytes rest ih =>
    rcases List.mem_cons.mp mem with rfl | mem
    · exact legal.1
    · exact ih legal.2.2 mem
  | dir first children rest _ ih =>
    rcases List.mem_cons.mp mem with rfl | mem
    · exact legal.1
    · exact ih legal.2.2.2 mem

theorem nodup (legal : entries.Legal) : entries.names.Nodup := by
  induction entries with
  | nil => exact List.nodup_nil
  | file first bytes rest ih =>
    exact List.nodup_cons.mpr ⟨legal.2.1, ih legal.2.2⟩
  | dir first children rest _ ih =>
    exact List.nodup_cons.mpr ⟨legal.2.1, ih legal.2.2.2⟩

theorem element (legal : entries.Legal) {path : List (List UInt8)}
    {host : Host} (contains : entries.Contains path host) : ∀ name ∈ path, IsElement name := by
  have isElement : ∀ {name : List UInt8}, Name name ∧ name.length ≤ DIRSIZ → IsElement name :=
    fun good => ⟨good.1.1, good.1.2.2.1, good.2⟩
  induction contains with
  | self => exact fun name mem => absurd mem List.not_mem_nil
  | file name bytes rest =>
    intro element mem
    rw [List.mem_singleton.mp mem]
    exact isElement legal.1
  | dir name rest _ ih =>
    intro element mem
    rcases List.mem_cons.mp mem with rfl | mem
    · exact isElement legal.1
    · exact ih legal.2.2.1 element mem
  | afterFile _ _ _ ih => exact ih legal.2.2
  | afterDir _ _ _ ih => exact ih legal.2.2.2

end Legal

end Entries

namespace Mkfs

variable {nodes : Nat → Node} {next i : Nat} {entries : Entries}
variable {path : List (List UInt8)} {host : Host} {j limit limit' : Nat}

/-- Inode `i` is the directory with these entries. -/
structure IsDir (nodes : Nat → Node) (limit i : Nat) (entries : Entries) : Prop where
  node : ∃ parent next, i < next ∧ next + entries.count ≤ limit ∧
    nodes i = dirNode i parent next entries ∧ Encodes nodes next i entries
  legal : entries.Legal

/-- Inode `i` is what the host has. -/
def Is (nodes : Nat → Node) (limit i : Nat) : Host → Prop
  | .file bytes => nodes i = ⟨T_FILE, bytes.length, bytes⟩
  | .dir => ∃ entries, IsDir nodes limit i entries

/-- The first name of a path is an entry of the directory, and the rest of the
path goes on from the inode of that entry. -/
theorem Encodes.find {name : List UInt8} (encodes : Encodes nodes next i entries)
    (legal : entries.Legal) (contains : entries.Contains (name :: path) host) :
    ∃ child, (child, name) ∈ entries.list next ∧
      ((path = [] ∧ Is nodes (next + entries.count) child host) ∨
        ∃ children, IsDir nodes (next + entries.count) child children ∧
          children.Contains path host) := by
  induction entries generalizing next with
  | nil => cases contains
  | file first bytes rest ih =>
    simp only [list, count]
    cases contains with
    | file =>
      exact ⟨next, List.mem_cons_self .., .inl ⟨rfl, encodes.1⟩⟩
    | afterFile _ _ later =>
      obtain ⟨child, mem, found⟩ := ih encodes.2 legal.2.2 later
      rw [Nat.add_assoc] at found
      exact ⟨child, List.mem_cons_of_mem _ mem, found⟩
  | dir first children rest _ ih =>
    simp only [list, count]
    cases contains with
    | dir _ _ below =>
      refine ⟨next, List.mem_cons_self .., .inr ⟨children, ⟨?_, ?_⟩, below⟩⟩
      · exact ⟨i, next + 1, Nat.lt_succ_self next, by omega, encodes.1, encodes.2.1⟩
      · exact legal.2.2.1
    | afterDir _ _ later =>
      obtain ⟨child, mem, found⟩ := ih encodes.2.2 legal.2.2.2 later
      rw [show next + 1 + children.count + rest.count =
        next + (1 + children.count + rest.count) by omega] at found
      exact ⟨child, List.mem_cons_of_mem _ mem, found⟩

variable {s : FsImage} {owner : Owner} {parent child : Nat}
  {name : List UInt8}

theorem length_records (cur parent next : Nat) (entries : Entries) :
    (records cur parent next entries).length = entries.number + 2 := by
  unfold records
  rw [List.length_cons, List.length_cons, entries.length_list]

theorem records_name (legal : entries.Legal) {record : Nat × List UInt8}
    (mem : record ∈ records i parent next entries) : 0 ∉ record.2 ∧ record.2.length ≤ DIRSIZ := by
  have dot : 0 ∉ ([46] : List UInt8) := by decide
  have dots : 0 ∉ ([46, 46] : List UInt8) := by decide
  rcases List.mem_cons.mp mem with rfl | mem
  · exact ⟨dot, Nat.succ_le_of_lt (by decide)⟩
  · rcases List.mem_cons.mp mem with rfl | mem
    · exact ⟨dots, Nat.succ_le_of_lt (by decide)⟩
    · have listed : record.2 ∈ entries.names := by
        rw [← entries.map_list next]
        exact List.mem_map_of_mem mem
      have good := legal.name listed
      exact ⟨good.1.2.1, good.2⟩

theorem records_first (legal : entries.Legal) {k : Nat}
    (inside : k < (entries.list next).length) (less : j < k + 2)
    (there : j < (records i parent next entries).length) :
    (records i parent next entries)[j].2 ≠ (entries.list next)[k].2 := by
  have names := entries.map_list next
  have listed : (entries.list next)[k].2 ∈ entries.names := by
    rw [← names]
    exact List.mem_map_of_mem (List.getElem_mem inside)
  obtain ⟨⟨-, -, -, notDot, notDots⟩, -⟩ := legal.name listed
  rcases j with _ | _ | j
  · exact Ne.symm notDot
  · exact Ne.symm notDots
  · have nodup := legal.nodup
    rw [← names] at nodup
    have insideJ : j < (entries.list next).length := by omega
    intro same
    have equal : j = k := by
      have mappedJ : j < ((entries.list next).map Prod.snd).length := by
        rwa [List.length_map]
      have mappedK : k < ((entries.list next).map Prod.snd).length := by
        rwa [List.length_map]
      have names : ((entries.list next).map Prod.snd)[j] =
          ((entries.list next).map Prod.snd)[k] := by
        rw [List.getElem_map, List.getElem_map]
        exact same
      exact (List.Nodup.getElem_inj_iff nodup).mp names
    omega

theorem Built.compared (built : Built s owner nodes) (uses : Uses s i)
    (node : nodes i = dirNode i parent next entries) (legal : entries.Legal)
    (zeroFree : 0 ∉ name) (short : name.length ≤ DIRSIZ) (small : j < MAXFILE * DPB)
    (inside : j < (records i parent next entries).length) :
    namecmp (nameBytes name) (fun o => (disk s).contents
        ((disk s).dinode i) (DIRENTSIZE * j + 2 + o)) = 0 ↔
      name = (records i parent next entries)[j].2 := by
  obtain ⟨recordFree, recordShort⟩ := records_name legal (List.getElem_mem inside)
  refine namecmp_eq_zero zeroFree recordFree short recordShort ?_
  intro o less
  have type : (nodes i).type = T_DIR := by
    rw [node]
    rfl
  have content : (nodes i).content = encode (records i parent next entries) := by
    rw [node]
    exact dirNode_content i parent next entries
  rw [built.nameByte uses.1 uses.2 type content small less, List.getD_eq_getElem _ _ inside]

theorem Built.has (built : Built s owner nodes) (uses : Uses s i) :
    (disk s).Has ((disk s).dinode i) (nblocks (nodes i).content.length) := by
  have isNode := built.node i uses.1 uses.2
  intro bn present
  refine ⟨present.trans_le isNode.stores.few, ?_⟩
  rw [Holds.ptr_file isNode.stores built.pool present]
  exact built.pool.ne_zero (isNode.stores.there bn (.inl present))

theorem Built.leads (built : Built s owner nodes) (uses : Uses s i)
    (node : nodes i = dirNode i parent next entries) (beyond : i < next)
    (limit : next + entries.count ≤ s.freeinode) (legal : entries.Legal)
    (mem : (child, name) ∈ entries.list next) : (disk s).Child i name child := by
  obtain ⟨k, inside, found⟩ := List.getElem_of_mem mem
  have isNode := built.node i uses.1 uses.2
  have inodes : s.freeinode ≤ 200 := built.inodes
  have bounds : next ≤ child ∧ child < next + entries.count := mem_list mem
  have few := entries.number_le_count
  have number := entries.length_list next
  have length := length_records i parent next entries
  have listed : name ∈ entries.names := by
    rw [← entries.map_list next]
    exact List.mem_map_of_mem mem
  obtain ⟨host, short⟩ := legal.name listed
  have there : k + 2 < (records i parent next entries).length := by omega
  have record : (records i parent next entries)[k + 2] = (child, name) := found
  have small : ∀ {j}, j < (records i parent next entries).length → j < MAXFILE * DPB := by
    intro j less
    refine less.trans_le (Nat.le_trans (m := 300) ?_ (by decide))
    omega
  have inum : (disk s).entryInum ((disk s).dinode i) (k + 2) = child := by
    have get : ((records i parent next entries).getD (k + 2) (0, [])) =
        (child, name) := by rw [List.getD_eq_getElem _ _ there, record]
    rw [(built.dirEntry uses node (small there) (by rw [get]; omega)).1, get]
  constructor
  case type =>
    rw [isNode.type, node]
    rfl
  case linked =>
    rw [isNode.nlink]
    decide
  case entry =>
    have bytes : (nodes i).content.length = 32 + 16 * entries.number := by
      rw [node]
      unfold dirNode dots
      simp only [List.length_append, length_dirent, length_dirents]
    have size : ((disk s).dinode i).size = ((32 + 16 * entries.number) / 512 + 1) * 512 := by
      rw [isNode.size, node]
      rfl
    refine ⟨nblocks (nodes i).content.length, k + 2, built.has uses, ?_, ?_, ⟨?_, ?_⟩, ?_, inum⟩
    · rw [bytes]
      simp only [nblocks, DPB]
      omega
    · rw [size]
      simp only [BSIZE, DPB]
      omega
    · rw [inum]
      omega
    · rw [built.compared uses node legal host.2.1 short (small there) there, record]
    · intro j less hit
      have insideJ : j < (records i parent next entries).length := by omega
      have same := (built.compared uses node legal host.2.1 short (small insideJ) insideJ).mp hit.2
      refine records_first legal inside less insideJ ?_
      rw [← same, found]

theorem IsDir.mono (isDir : IsDir nodes limit i entries)
    (le : limit ≤ limit') : IsDir nodes limit' i entries := by
  obtain ⟨parent, next, beyond, inside, rest⟩ := isDir.node
  exact ⟨⟨parent, next, beyond, inside.trans le, rest⟩, isDir.legal⟩

theorem Is.mono (isHost : Is nodes limit i host)
    (le : limit ≤ limit') : Is nodes limit' i host := by
  cases host with
  | file bytes => exact isHost
  | dir =>
    obtain ⟨entries, isDir⟩ := isHost
    exact ⟨entries, isDir.mono le⟩

/-- Every path of the tree leads to the inode of what it names. -/
theorem Built.walk (built : Built s owner nodes) (low : 1 ≤ i)
    (isDir : IsDir nodes s.freeinode i entries) (contains : entries.Contains path host) :
    ∃ target, (disk s).Walk i path target ∧ Uses s target ∧ Is nodes s.freeinode target host := by
  induction path generalizing i entries with
  | nil =>
    obtain ⟨parent, next, beyond, limit, -⟩ := isDir.node
    cases contains
    exact ⟨i, .here i, ⟨low, by omega⟩, entries, isDir⟩
  | cons name path ih =>
    obtain ⟨parent, next, beyond, limit, node, encodes⟩ := isDir.node
    obtain ⟨child, mem, found⟩ := encodes.find isDir.legal contains
    have bounds : next ≤ child ∧ child < next + entries.count := mem_list mem
    have leads := built.leads ⟨low, by omega⟩ node beyond limit isDir.legal mem
    rcases found with ⟨rfl, isHost⟩ | ⟨children, isDir', below⟩
    · exact ⟨child, .step leads (.here child), ⟨by omega, by omega⟩, isHost.mono limit⟩
    · obtain ⟨target, walk, rest⟩ := ih (by omega) (isDir'.mono limit) below
      exact ⟨target, .step leads walk, rest⟩

/-! ## The kernel on the image -/

/-- The absolute path with these elements. -/
def pathBytes : List (List UInt8) → List UInt8
  | [] => [SLASH]
  | names => names.flatMap (SLASH :: ·)

/-- The locked inode `ip` is what the host has: it has the type, and a read of
a whole file returns its length and its bytes. -/
def Shows (s : FileSys) (ip : InodePtr) : Host → Prop
  | .dir => (s.icache ip).type = T_DIR
  | .file bytes => (s.icache ip).type = T_FILE ∧ (s.icache ip).size = bytes.length ∧
      ∀ typed n, bytes.length ≤ n → n < 2 ^ 32 → Fs.readi typed (s.icache ip) 0 n s.disk =
          .ok ((bytes.length, bytes, s.icache ip), s.disk)

theorem pathBytes_spells {names : List (List UInt8)} (whole : ∀ name ∈ names, IsElement name) :
    (pathBytes names).head? = some SLASH ∧ elements (pathBytes names) = names ∧
      names.length ≤ (pathBytes names).length := by
  rcases names with _ | ⟨name, names⟩
  · exact ⟨rfl, rfl, Nat.zero_le _⟩
  · refine ⟨rfl, elements_join whole, ?_⟩
    unfold pathBytes
    have long : ∀ list : List (List UInt8), list.length ≤ (list.flatMap (SLASH :: ·)).length := by
      intro list
      induction list with
      | nil => exact Nat.le_refl 0
      | cons first list ih =>
        rw [List.flatMap_cons, List.length_append, List.length_cons, List.length_cons]
        omega
    exact long _

theorem Built.shows_file {bytes : List UInt8} {t : FileSys} {ip : InodePtr}
    (built : Built s owner nodes) (uses : Uses s i) (node : nodes i = ⟨T_FILE, bytes.length, bytes⟩)
    (sectors : t.disk.sectors = s.sectors) (idle : t.disk.held = [])
    (copy : (t.icache ip).toDinode = (disk s).dinode i) : Shows t ip (.file bytes) := by
  have isNode := built.node i uses.1 uses.2
  have has := built.has uses
  rw [node] at isNode has
  have type : (t.icache ip).type = T_FILE := by
    rw [copy]
    exact isNode.type
  have size : (t.icache ip).size = bytes.length := by
    rw [copy]
    exact isNode.size
  have room : bytes.length ≤ 512 * nblocks bytes.length := isNode.stores.room
  have few : nblocks bytes.length ≤ 140 := isNode.stores.few
  have short : bytes.length ≤ MAXFILE * 512 := room.trans (Nat.mul_le_mul_left 512 few)
  have whole : Bytes.slice (t.disk.contents (t.icache ip).toDinode) 0 bytes.length = bytes := by
    have list : Bytes.slice (Bytes.ofList bytes) 0 bytes.length =
        (bytes.drop 0).take bytes.length := Bytes.slice_ofList (by omega)
    rw [List.drop_zero, List.take_length] at list
    refine Eq.trans (List.map_congr_left fun off mem => ?_) list
    have plain : (nodes i).type ≠ T_CHECKED := by
      rw [node]
      exact (by decide : T_FILE ≠ T_CHECKED)
    have inside := List.mem_range.mp mem
    have read := built.contents uses.1 uses.2 plain (inside.trans_le short)
    rw [node] at read
    rw [copy, Disk.contents_sectors (d := disk s) sectors, Nat.zero_add]
    exact read
  refine ⟨type, size, fun typed n enough word => ?_⟩
  have run : PanicM.wp (Fs.readi typed (t.icache ip) 0 n)
      (fun result d => result = (↑bytes.length, bytes, t.icache ip) ∧
        d = t.disk) (fun _ => False) t.disk := by
    refine wp_readi_there typed idle (n := nblocks bytes.length) ?_ ?_ ?_ ?_ ?_
      (Nat.zero_le _) (by omega) ?_
    · rw [copy]
      exact has.sectors sectors
    · rw [size]
      exact room
    · rw [size]
      omega
    · rw [type]
      decide
    · rw [type]
      decide
    · rw [size, Nat.sub_zero, Nat.min_eq_right enough, whole]
      exact ⟨rfl, rfl⟩
  obtain ⟨value, after, returned, rfl, rfl⟩ := PanicM.wp_returns run
  exact returned

/-- mkfs and the kernel agree: of a tree that fits, mkfs makes an image in
which the kernel finds every file and directory of the tree, from any state in
which nobody uses the file system. -/
theorem kernel_reads_image (entries : Entries) (legal : entries.Legal)
    (files : entries.FilesSmall) (inodes : entries.count + 2 ≤ NINODES)
    (blocks : DATA + entries.dirBlocks + entries.cost ≤ 1024) :
    ∃ image, Builds entries image ∧ ∀ path host, entries.Contains path host →
      ∀ (s : FileSys) (cwd : InodePtr), Fs.Settled s → s.disk.sectors = image.sectors →
        ∃ ip t u, namei cwd (pathBytes path) s = .ok (some ip, t) ∧
          ilock ip t = .ok ((), u) ∧ Shows u ip host := by
  have number := entries.number_le_count
  have ninodes : NINODES = 200 ∧ MAXFILE * 512 = 71680 := ⟨rfl, rfl⟩
  have fits : Fits entries := ⟨files.small (by omega), by omega, blocks⟩
  obtain ⟨image, builds⟩ := exists_builds fits (by omega)
  obtain ⟨owner, nodes, finished⟩ := builds.finished (by omega)
  have built := finished.built
  refine ⟨image, builds, fun path host contains s cwd settled sectors => ?_⟩
  have isDir : IsDir nodes image.freeinode ROOTINO entries := by
    refine ⟨⟨ROOTINO, 2, by decide, ?_, finished.root, finished.encodes⟩, legal⟩
    rw [finished.freeinode]
  obtain ⟨target, walk, uses, isHost⟩ := built.walk le_rfl isDir contains
  obtain ⟨absolute, spells, enough⟩ := pathBytes_spells (legal.element contains)
  obtain ⟨found, t, named, ip, rfl, holding, inum⟩ := PanicM.wp_returns
    (wp_namei_walk (E := fun _ => False) cwd settled
      (walk.congr s.disk sectors) absolute spells enough)
  have isNode := built.node target uses.1 uses.2
  have used : (nodes target).type ≠ 0 := by
    cases host with
    | file bytes =>
      have node : nodes target = ⟨T_FILE, bytes.length, bytes⟩ := isHost
      rw [node]
      exact (by decide : T_FILE ≠ 0)
    | dir =>
      obtain ⟨_, ⟨_, _, _, _, node, _⟩, _⟩ := isHost
      rw [node]
      exact (by decide : T_DIR ≠ 0)
  have dinode : s.disk.dinode target = (Mkfs.disk image).dinode target := by
    unfold Fs.Disk.dinode
    rw [sectors]
    rfl
  obtain ⟨_, u, locked, holding', inum'⟩ := PanicM.wp_returns
    (wp_ilock_held (E := fun _ => False) (Q := fun _ u => Holding s u (Fs.addRef 0 ip) (some ip) ∧
        (u.icache ip).inum = target) holding (holding.ref_pos settled) inum
      (holding.disk ▸ settled.idle) (by rw [holding.disk, dinode, isNode.type]; exact used)
      fun _ => And.intro)
  refine ⟨ip, t, u, named, locked, ?_⟩
  obtain ⟨held, valid⟩ := holding'.locked ip rfl
  have copy := holding'.copy ip held valid
  rw [inum', holding'.disk, dinode] at copy
  cases host with
  | file bytes =>
    exact built.shows_file uses isHost (holding'.disk ▸ sectors) (holding'.disk ▸ settled.idle) copy
  | dir =>
    obtain ⟨_, ⟨_, _, _, _, node, _⟩, _⟩ := isHost
    change (u.icache ip).type = T_DIR
    rw [copy, isNode.type, node]
    rfl

/-- The kernel after boot, with the image on its disk. -/
def mounted (image : FsImage) : FileSys where
  disk := disk image
  icache := fun _ =>
    { type := 0, major := 0, minor := 0, nlink := 0, size := 0,
      addrs := fun _ => 0, inum := 0, ref := 0, busy := false, valid := false }
  ftable := fun _ =>
    { type := .none, ref := 0, readable := false, writable := false, ip := 0,
      off := 0 }
  cwd := fun _ => none

theorem settled_mounted (image : FsImage) : Fs.Settled (mounted image) where
  idle := rfl
  refs := fun _ => Int.le_refl 0
  calm := fun _ held => absurd held (Int.lt_irrefl 0)
  free := ⟨0, 1, by decide, rfl, rfl⟩

/-- A directory `a` with a file `b`. -/
def oneBelow : Entries := .dir [97] (.file [98] [104, 105] .nil) .nil

/-- The kernel reads the two bytes of `/a/b`. -/
theorem oneBelow_read : ∃ image, Builds oneBelow image ∧ ∃ ip t u,
    namei 0 [47, 97, 47, 98] (mounted image) = .ok (some ip, t) ∧ ilock ip t = .ok ((), u) ∧
      Fs.readi [] (u.icache ip) 0 512 u.disk = .ok ((2, [104, 105], u.icache ip), u.disk) := by
  obtain ⟨image, builds, reads⟩ := kernel_reads_image oneBelow
    ⟨⟨by decide, by decide⟩, List.not_mem_nil,
      ⟨⟨by decide, by decide⟩, List.not_mem_nil, trivial⟩, trivial⟩
    ⟨⟨by decide, trivial⟩, trivial⟩ (by decide) (by decide)
  obtain ⟨ip, t, u, named, locked, shows⟩ := reads [[97], [98]]
    (.file [104, 105]) (.dir [97] .nil (.file [98] [104, 105] .nil))
    (mounted image) 0 (settled_mounted image) rfl
  exact ⟨image, builds, ip, t, u, named, locked, shows.2.2 [] 512 (by decide) (by decide)⟩

end Mkfs

end Xv6
