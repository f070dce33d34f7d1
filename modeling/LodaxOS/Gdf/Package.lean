/-
# The driver package (`drivers/pkg.py`, `internal_init_from_package`)

`pkg.py` writes a header, one entry for each driver, padding up to a multiple of
eight, and the drivers' binaries one after the other. An entry has the offset
of its binary from the start of the file. The kernel reads the entries back
and hands the binary of each to `start_service`.

The writer starts from the list of drivers that it has read from its arguments.
`struct.pack` fails for a number of more than 32 bits. The package is in memory at
an aligned address.
-/
import LodaxOS.Gdf.Services
import LodaxOS.Lib.Bytes

namespace LodaxOS.Gdf
namespace Package

open List

open Bytes (bytes32 le32 ofList)

/-! ### The writer -/

structure Driver where
  name : Name
  driverClass : ℕ
  data : List UInt8

/-- `LODAXPKG`. -/
def magic : List UInt8 := [0x4C, 0x4F, 0x44, 0x41, 0x58, 0x50, 0x4B, 0x47]

def entrySize : ℕ := 44

def entriesOffset : ℕ := 12

/-- Where the binaries start. -/
def dataOffset (count : ℕ) : ℕ :=
  let offset := entriesOffset + count * entrySize
  if offset % 8 ≠ 0 then offset + (8 - offset % 8) else offset

/-- `struct.pack("<I", n)`. -/
def packU32 (n : ℕ) : Option (List UInt8) := if n < 2 ^ 32 then some (bytes32 n) else none

/-- `ljust(32, b"\0")[:32]`. -/
def entryName (name : Name) : Name := (name ++ List.replicate (32 - name.length) 0).take 32

def packEntry (d : Driver) (offset : ℕ) : Option (List UInt8) := do
  let cls ← packU32 d.driverClass
  let start ← packU32 offset
  let size ← packU32 d.data.length
  return entryName d.name ++ (cls ++ (start ++ size))

/-- The loop over the entries; `cur` is the size of the binaries before. -/
def packEntries (start : ℕ) : ℕ → List Driver → Option (List UInt8)
  | _, [] => some []
  | cur, d :: ds => do
    let entry ← packEntry d (start + cur)
    let entries ← packEntries start (cur + d.data.length) ds
    return entry ++ entries

/-- The file that `main` writes. -/
def pack (drivers : List Driver) : Option (List UInt8) := do
  let start := dataOffset drivers.length
  let count ← packU32 drivers.length
  let entries ← packEntries start 0 drivers
  let manifest := magic ++ (count ++ entries)
  return manifest ++ (List.replicate (start - manifest.length) 0 ++ (drivers.map Driver.data).flatten)

/-- The size of the file. -/
def packedSize (drivers : List Driver) : ℕ := dataOffset drivers.length + (drivers.map Driver.data).flatten.length

/-! ### The reader -/

structure DriverPkgEntry where
  name : Name
  driverClass : ℕ
  elfOffset : ℕ
  elfSize : ℕ

/-- The fields of an entry, at the start of the bytes. -/
def readEntry (bytes : List UInt8) : DriverPkgEntry :=
  ⟨bytes.take 32, le32 (ofList (bytes.drop 32)) 0, le32 (ofList (bytes.drop 36)) 0, le32 (ofList (bytes.drop 40)) 0⟩

/-- A slice of entries. -/
def readEntries : ℕ → List UInt8 → List DriverPkgEntry
  | 0, _ => []
  | n + 1, bytes => readEntry bytes :: readEntries n (bytes.drop entrySize)

/-- The checks of the header, and the entries that the loop runs over. -/
def parseEntries (package : List UInt8) : Option (List DriverPkgEntry) :=
  if package.length < entriesOffset then none
  else if package.take 8 ≠ magic then none
  else
    let count := le32 (ofList (package.drop 8)) 0
    if entriesOffset + count * entrySize > package.length then none
    else some (readEntries count (package.drop entriesOffset))

def slice (package : List UInt8) (start size : ℕ) : List UInt8 := (package.drop start).take size

def classOf : ℕ → Option DriverClass
  | 0 => some .hardware
  | 1 => some .abstraction
  | _ => none

/-- A call of `start_service`, for entry `index`: the binary is a copy of the
bytes from `start` on. -/
structure StartCall where
  index : ℕ
  name : Name
  start : ℕ
  size : ℕ
  driverClass : DriverClass

/-- The loop over the entries from number `i` on, with its calls. `outcome` says
for each entry whether there is memory for a copy of its binary, and how far its
start gets. -/
def initEntries (package : List UInt8) (outcome : ℕ → Bool × Services.Start) :
    ℕ → List DriverPkgEntry → Registry → Registry × List StartCall
  | _, [], s => (s, [])
  | i, entry :: entries, s =>
    if entry.elfOffset + entry.elfSize > package.length then initEntries package outcome (i + 1) entries s
    else
      match classOf entry.driverClass, (outcome i).1 with
      | some cls, true =>
        let elf := slice package entry.elfOffset entry.elfSize
        let r := initEntries package outcome (i + 1) entries (s.load i entry.name elf cls (outcome i).2)
        (r.1, ⟨i, entry.name, entry.elfOffset, entry.elfSize, cls⟩ :: r.2)
      | _, _ => initEntries package outcome (i + 1) entries s

def internalInitFromPackage (s : Registry) (package : List UInt8) (outcome : ℕ → Bool × Services.Start) :
    Registry × List StartCall :=
  initEntries package outcome 0 ((parseEntries package).getD []) s

/-! ### What is written -/

lemma length_entryName (name : Name) : (entryName name).length = 32 := by
  simp only [entryName, length_take, length_append, length_replicate]
  omega

lemma entryName_eq {name : Name} (h : name.length ≤ 32) : entryName name = name ++ replicate (32 - name.length) 0 := by
  apply take_of_length_le
  simp only [length_append, length_replicate]
  omega

lemma le_dataOffset (count : ℕ) : entriesOffset + count * entrySize ≤ dataOffset count := by
  unfold dataOffset
  dsimp only
  split
  · exact Nat.le_add_right ..
  · exact le_rfl

lemma packU32_eq {n : ℕ} (h : n < 2 ^ 32) : packU32 n = some (bytes32 n) := if_pos h

/-- The bytes of an entry. -/
def entryBytes (d : Driver) (offset : ℕ) : List UInt8 :=
  entryName d.name ++ (bytes32 d.driverClass ++ (bytes32 offset ++ bytes32 d.data.length))

lemma length_entryBytes (d : Driver) (offset : ℕ) : (entryBytes d offset).length = entrySize := by
  simp only [entryBytes, length_append, length_entryName, Bytes.length_bytes32, entrySize]

def entriesBytes (start : ℕ) : ℕ → List Driver → List UInt8
  | _, [] => []
  | cur, d :: ds => entryBytes d (start + cur) ++ entriesBytes start (cur + d.data.length) ds

lemma length_entriesBytes (start : ℕ) : ∀ (cur : ℕ) (ds : List Driver),
    (entriesBytes start cur ds).length = ds.length * entrySize
  | _, [] => by rw [entriesBytes, length_nil, length_nil, zero_mul]
  | cur, d :: ds => by
    rw [entriesBytes, length_append, length_entryBytes, length_entriesBytes start _ ds, length_cons, Nat.succ_mul,
      add_comm]

lemma packEntry_eq (d : Driver) (offset : ℕ) (hclass : d.driverClass < 2 ^ 32) (hoffset : offset < 2 ^ 32)
    (hsize : d.data.length < 2 ^ 32) : packEntry d offset = some (entryBytes d offset) := by
  simp only [packEntry, packU32_eq hclass, packU32_eq hoffset, packU32_eq hsize, Option.bind_eq_bind, Option.bind_some]
  rfl

/-- All offsets and sizes have 32 bits if the file's size has. -/
lemma packEntries_eq (start : ℕ) : ∀ (cur : ℕ) {ds : List Driver}, (∀ d ∈ ds, d.driverClass < 2 ^ 32) →
    start + cur + (ds.map Driver.data).flatten.length < 2 ^ 32 →
    packEntries start cur ds = some (entriesBytes start cur ds)
  | _, [], _, _ => rfl
  | cur, d :: ds, hclass, hsize => by
    rw [map_cons, flatten_cons, length_append] at hsize
    have hentry := packEntry_eq d (start + cur) (hclass d mem_cons_self) (by omega) (by omega)
    have hrest := packEntries_eq start (cur + d.data.length) (fun d' hd' => hclass d' (mem_cons_of_mem d hd')) (by omega)
    simp only [packEntries, hentry, hrest, Option.bind_eq_bind, Option.bind_some]
    rfl

/-- The part before the binaries. -/
def manifestBytes (drivers : List Driver) : List UInt8 :=
  magic ++ (bytes32 drivers.length ++ entriesBytes (dataOffset drivers.length) 0 drivers)

lemma length_manifestBytes (drivers : List Driver) :
    (manifestBytes drivers).length = entriesOffset + drivers.length * entrySize := by
  simp only [manifestBytes, length_append, length_entriesBytes, Bytes.length_bytes32, entriesOffset]
  have hmagic : magic.length = 8 := rfl
  omega

def fileBytes (drivers : List Driver) : List UInt8 :=
  manifestBytes drivers ++
    (List.replicate (dataOffset drivers.length - (manifestBytes drivers).length) 0 ++ (drivers.map Driver.data).flatten)

variable {drivers : List Driver}

lemma pack_eq (hclass : ∀ d ∈ drivers, d.driverClass < 2 ^ 32) (hsize : packedSize drivers < 2 ^ 32) :
    pack drivers = some (fileBytes drivers) := by
  have hle := le_dataOffset drivers.length
  simp only [packedSize, entrySize] at hsize hle
  have hcount := packU32_eq (show drivers.length < 2 ^ 32 by omega)
  have hentries := packEntries_eq (dataOffset drivers.length) 0 hclass (by omega)
  simp only [pack, hcount, hentries, Option.bind_eq_bind, Option.bind_some]
  rfl

lemma length_fileBytes (drivers : List Driver) : (fileBytes drivers).length = packedSize drivers := by
  have hle := le_dataOffset drivers.length
  simp only [fileBytes, packedSize, length_append, length_replicate, length_manifestBytes]
  omega

/-- The binaries are at the end. -/
lemma drop_fileBytes (drivers : List Driver) :
    (fileBytes drivers).drop (dataOffset drivers.length) = (drivers.map Driver.data).flatten := by
  have hle := le_dataOffset drivers.length
  rw [fileBytes, ← append_assoc]
  apply drop_left'
  rw [length_append, length_replicate, length_manifestBytes]
  omega

/-! ### What is read back -/

lemma readEntry_entryBytes (d : Driver) (offset : ℕ) (hclass : d.driverClass < 2 ^ 32) (hoffset : offset < 2 ^ 32)
    (hsize : d.data.length < 2 ^ 32) (rest : List UInt8) :
    readEntry (entryBytes d offset ++ rest) = ⟨entryName d.name, d.driverClass, offset, d.data.length⟩ := by
  have hname := length_entryName d.name
  have hdrop : ∀ (a b : List UInt8) {n m : ℕ}, n = a.length + m → (a ++ b).drop n = b.drop m := by
    intro a b n m hn
    rw [hn, ← drop_drop, drop_left]
  simp only [readEntry, entryBytes, append_assoc]
  rw [take_left' hname, hdrop (entryName d.name) _ (n := 32) (m := 0) (by omega),
    hdrop (entryName d.name) _ (n := 36) (m := 4) (by omega),
    hdrop (entryName d.name) _ (n := 40) (m := 8) (by omega),
    hdrop (bytes32 d.driverClass) _ (n := 4) (m := 0) rfl,
    hdrop (bytes32 d.driverClass) _ (n := 8) (m := 4) rfl,
    hdrop (bytes32 offset) _ (n := 4) (m := 0) rfl]
  simp only [drop_zero, Bytes.le32_bytes32 hclass, Bytes.le32_bytes32 hoffset, Bytes.le32_bytes32 hsize]

/-- The entries of drivers; the binary of a driver stands at the sum of the sizes
before it. -/
def entriesOf (start : ℕ) : ℕ → List Driver → List DriverPkgEntry
  | _, [] => []
  | cur, d :: ds =>
    ⟨entryName d.name, d.driverClass, start + cur, d.data.length⟩ :: entriesOf start (cur + d.data.length) ds

lemma readEntries_entriesBytes (start : ℕ) : ∀ (cur : ℕ) (ds : List Driver) (rest : List UInt8),
    (∀ d ∈ ds, d.driverClass < 2 ^ 32) → start + cur + (ds.map Driver.data).flatten.length < 2 ^ 32 →
    readEntries ds.length (entriesBytes start cur ds ++ rest) = entriesOf start cur ds
  | _, [], _, _, _ => rfl
  | cur, d :: ds, rest, hclass, hsize => by
    rw [map_cons, flatten_cons, length_append] at hsize
    have hentry := readEntry_entryBytes d (start + cur) (hclass d mem_cons_self) (by omega) (by omega)
      (entriesBytes start (cur + d.data.length) ds ++ rest)
    have ih := readEntries_entriesBytes start (cur + d.data.length) ds rest
      (fun d' hd' => hclass d' (mem_cons_of_mem d hd')) (by omega)
    rw [entriesBytes, append_assoc, length_cons, readEntries, hentry, drop_left' (length_entryBytes d _), ih, entriesOf]

lemma parseEntries_fileBytes (hclass : ∀ d ∈ drivers, d.driverClass < 2 ^ 32) (hsize : packedSize drivers < 2 ^ 32) :
    parseEntries (fileBytes drivers) = some (entriesOf (dataOffset drivers.length) 0 drivers) := by
  have hle := le_dataOffset drivers.length
  have hlen := length_fileBytes drivers
  obtain ⟨rest, hrest⟩ : ∃ rest, fileBytes drivers =
      magic ++ (bytes32 drivers.length ++ (entriesBytes (dataOffset drivers.length) 0 drivers ++ rest)) := by
    rw [fileBytes, manifestBytes, append_assoc, append_assoc]
    exact ⟨_, rfl⟩
  rw [← readEntries_entriesBytes (dataOffset drivers.length) 0 drivers rest hclass (by simpa [packedSize] using hsize)]
  simp only [packedSize, entriesOffset, entrySize] at hle hlen hsize
  have hcount : le32 (ofList ((fileBytes drivers).drop 8)) 0 = drivers.length := by
    rw [hrest, drop_left' (show magic.length = 8 from rfl), Bytes.le32_bytes32 (by omega)]
  have hentries : (fileBytes drivers).drop 12 = entriesBytes (dataOffset drivers.length) 0 drivers ++ rest := by
    rw [hrest, ← append_assoc, drop_left' (show (magic ++ bytes32 drivers.length).length = 12 from rfl)]
  have hmagic : (fileBytes drivers).take 8 = magic := by rw [hrest, take_left' (show magic.length = 8 from rfl)]
  unfold parseEntries
  simp only [entriesOffset, entrySize, hcount, hentries, hmagic]
  rw [if_neg (by omega), if_neg (not_not.mpr rfl), if_neg (by omega)]

/-! ### The round trip -/

/-- A name that fits, and a class that there is. -/
def Driver.Lawful (d : Driver) : Prop :=
  (∀ b ∈ d.name, b ≠ 0 ∧ b < 128) ∧ d.name.length ≤ 31 ∧ (d.driverClass = 0 ∨ d.driverClass = 1)

/-- The class of a lawful driver. -/
def Driver.kind (d : Driver) : DriverClass := if d.driverClass = 0 then .hardware else .abstraction

lemma Driver.Lawful.classOf {d : Driver} (h : d.Lawful) : classOf d.driverClass = some d.kind := by
  rcases h.2.2 with h | h
  · rw [kind, h]
    rfl
  · rw [kind, h]
    rfl

/-- A name in its 32 bytes, the class and the binary. -/
def Driver.content (d : Driver) : Name × DriverClass × List UInt8 :=
  (d.name ++ List.replicate (32 - d.name.length) 0, d.kind, d.data)

variable {outcome : ℕ → Bool × Services.Start} {s : Registry}

/-- Entry by entry: what is started is what was packed, if it can be copied. -/
lemma initEntries_entriesOf {start : ℕ} {file : List UInt8} : ∀ (cur i : ℕ) (s : Registry) (ds : List Driver),
    (∀ d ∈ ds, d.Lawful) → file.drop (start + cur) = (ds.map Driver.data).flatten →
    start + cur + (ds.map Driver.data).flatten.length = file.length →
    (initEntries file outcome i (entriesOf start cur ds) s).2.map
        (fun call => (call.index, call.name, call.driverClass, slice file call.start call.size)) =
      ((ds.zipIdx i).filter fun x => (outcome x.2).1).map fun x => (x.2, x.1.content)
  | _, _, _, [], _, _, _ => rfl
  | cur, i, s, d :: ds, hlawful, hdata, hlen => by
    rw [map_cons, flatten_cons] at hdata hlen
    rw [length_append] at hlen
    have hd := hlawful d mem_cons_self
    have hin : ¬ start + cur + d.data.length > file.length := by omega
    have hslice : slice file (start + cur) d.data.length = d.data := by rw [slice, hdata, take_left]
    have hnext : file.drop (start + (cur + d.data.length)) = (ds.map Driver.data).flatten := by
      rw [← add_assoc, ← drop_drop, hdata, drop_left]
    have ih := fun s => initEntries_entriesOf (cur + d.data.length) (i + 1) s ds
      (fun d' hd' => hlawful d' (mem_cons_of_mem d hd')) hnext (by omega)
    rw [entriesOf, initEntries, if_neg hin, hd.classOf, zipIdx_cons, filter_cons]
    cases hcopy : (outcome i).1 with
    | false => exact ih s
    | true =>
      simp only [map_cons, ih, hslice, if_true, Driver.content, entryName_eq (le_trans hd.2.1 (by decide))]

/-- The entries, with the binaries that they refer to. -/
lemma map_entriesOf {start : ℕ} {file : List UInt8} : ∀ {cur : ℕ} (ds : List Driver), (∀ d ∈ ds, d.name.length ≤ 31) →
    file.drop (start + cur) = (ds.map Driver.data).flatten →
    (entriesOf start cur ds).map (fun e => (e.name, e.driverClass, slice file e.elfOffset e.elfSize)) =
      ds.map fun d => (d.name ++ List.replicate (32 - d.name.length) 0, d.driverClass, d.data)
  | _, [], _, _ => rfl
  | cur, d :: ds, hname, hdata => by
    rw [map_cons, flatten_cons] at hdata
    have hnext : file.drop (start + (cur + d.data.length)) = (ds.map Driver.data).flatten := by
      rw [← add_assoc, ← drop_drop, hdata, drop_left]
    have hlen := hname d mem_cons_self
    rw [entriesOf, map_cons, map_cons, map_entriesOf ds (fun d' hd' => hname d' (mem_cons_of_mem d hd')) hnext,
      slice, hdata, take_left, entryName_eq (by omega)]

/-- The calls are for binaries inside of the package, and they are all that is
done. -/
lemma initEntries_calls {package : List UInt8} : ∀ (entries : List DriverPkgEntry) (i : ℕ) (s : Registry),
    (∀ call ∈ (initEntries package outcome i entries s).2, call.start + call.size ≤ package.length) ∧
    (initEntries package outcome i entries s).1 = (initEntries package outcome i entries s).2.foldl (fun s call =>
      s.load call.index call.name (slice package call.start call.size) call.driverClass (outcome call.index).2) s
  | [], _, _ => ⟨fun _ h => (by cases h), rfl⟩
  | entry :: entries, i, s => by
    rw [initEntries]
    split
    · exact initEntries_calls entries (i + 1) s
    · rename_i hin
      split
      · rename_i cls _ _
        obtain ⟨hinside, hall⟩ := initEntries_calls entries (i + 1)
          (s.load i entry.name (slice package entry.elfOffset entry.elfSize) cls (outcome i).2)
        refine ⟨fun call hcall => ?_, hall⟩
        rcases mem_cons.mp hcall with rfl | hcall
        · exact not_lt.mp hin
        · exact hinside call hcall
      · exact initEntries_calls entries (i + 1) s

/-- The kernel reads from the file the names, classes and binaries that went into
it, and starts those that it can copy; and whatever bytes it is given, it starts
only binaries inside of them. -/
theorem package_round_trip :
    (∀ drivers : List Driver, (∀ d ∈ drivers, d.Lawful) → packedSize drivers < 2 ^ 32 →
      ∃ file entries, pack drivers = some file ∧ parseEntries file = some entries ∧
        entries.map (fun e => (e.name, e.driverClass, slice file e.elfOffset e.elfSize)) =
          drivers.map (fun d => (d.name ++ List.replicate (32 - d.name.length) 0, d.driverClass, d.data)) ∧
        ∀ s outcome, (internalInitFromPackage s file outcome).2.map
            (fun call => (call.index, call.name, call.driverClass, slice file call.start call.size)) =
          (drivers.zipIdx.filter fun x => (outcome x.2).1).map fun x => (x.2, x.1.content)) ∧
    ∀ s package outcome,
      (∀ call ∈ (internalInitFromPackage s package outcome).2, call.start + call.size ≤ package.length) ∧
      (internalInitFromPackage s package outcome).1 = (internalInitFromPackage s package outcome).2.foldl (fun s call =>
        s.load call.index call.name (slice package call.start call.size) call.driverClass (outcome call.index).2) s := by
  refine ⟨fun drivers hlawful hsize => ?_, fun s package outcome => initEntries_calls _ 0 s⟩
  have hclass : ∀ d ∈ drivers, d.driverClass < 2 ^ 32 := by
    intro d hd
    rcases (hlawful d hd).2.2 with h | h
    · omega
    · omega
  have hparse := parseEntries_fileBytes hclass hsize
  have hlen := length_fileBytes drivers
  have hdrop := drop_fileBytes drivers
  refine ⟨fileBytes drivers, _, pack_eq hclass hsize, hparse, ?_, fun s outcome => ?_⟩
  · exact map_entriesOf drivers (fun d hd => (hlawful d hd).2.1) hdrop
  · rw [internalInitFromPackage, hparse]
    exact initEntries_entriesOf _ _ _ drivers hlawful hdrop hlen.symm

/-- A package of two drivers. -/
def twoDrivers : List Driver := [⟨[0x66, 0x62], 0, [0x7F, 0x45, 0x4C, 0x46]⟩, ⟨[0x65, 0x78, 0x74, 0x34], 1, [1, 2, 3]⟩]

theorem package_round_trip_two : (∀ d ∈ twoDrivers, d.Lawful) ∧ packedSize twoDrivers = 111 ∧
    ∃ file, pack twoDrivers = some file ∧
      (internalInitFromPackage .empty file fun _ => (true, ⟨true, some 1, true⟩)).2.map
        (fun call => (call.driverClass, slice file call.start call.size)) =
          [(.hardware, [0x7F, 0x45, 0x4C, 0x46]), (.abstraction, [1, 2, 3])] := by
  have hlawful : ∀ d ∈ twoDrivers, d.Lawful := by
    unfold twoDrivers Driver.Lawful
    decide +kernel
  have hsize : packedSize twoDrivers = 111 := by decide
  obtain ⟨file, entries, hpack, -, -, hcalls⟩ := package_round_trip.1 twoDrivers hlawful (by rw [hsize]; decide)
  refine ⟨hlawful, hsize, file, hpack, ?_⟩
  simpa [Function.comp_def, twoDrivers, Driver.content, Driver.kind] using
    congrArg (List.map fun x => x.2.2) (hcalls .empty fun _ => (true, ⟨true, some 1, true⟩))

end Package
end LodaxOS.Gdf
