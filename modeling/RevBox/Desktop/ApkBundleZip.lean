import Mathlib.Algebra.Order.BigOperators.Group.List
import Mathlib.Algebra.Order.Group.Nat
import Mathlib.Data.List.Forall2
import RevBox.Desktop.ApkBundle
import RevBox.Support.Results

/-!
# Desktop — ApkBundleZip

What the writer of a container wrote is what its reader reads: `put_bytes`, `put_file` and
`finish_zip` against `read_bundle` and `stream_entry_to_file`.

The reader takes the last place of the end record's magic in the tail of the file.  The 18 bytes
after the magic hold three numbers that the archive decides; where these spell the magic again, the
reader takes them for an end record and reads beyond the file (`Quiet`).
-/

namespace RevBox.ApkBundle

open Checksum Records Results

/-! ### What is written -/

/-- The bytes of an entry's name. -/
def ZipEntry.nameLen (entry : ZipEntry) : Nat := (Utf8.encode entry.name).length

/-- The fields of an entry's local header. -/
def ZipEntry.head (entry : ZipEntry) : List (Nat × Nat) :=
  localFields entry.size entry.crc entry.nameLen (entry.dosTime, entry.dosDate)

/-- The local header of an entry, with its name. -/
def ZipEntry.header (entry : ZipEntry) : List UInt8 :=
  fields entry.head ++ Utf8.encode entry.name

/-- The fields of an entry's directory record. -/
def ZipEntry.central (entry : ZipEntry) : List (Nat × Nat) :=
  centralFields entry entry.size entry.nameLen entry.offset

/-- The directory record of an entry, with its name. -/
def ZipEntry.record (entry : ZipEntry) : List UInt8 :=
  fields entry.central ++ Utf8.encode entry.name

/-- What the directory tells of an entry. -/
def ZipEntry.listed (entry : ZipEntry) : BundleEntry :=
  ⟨entry.name, entry.size, entry.crc, entry.offset⟩

/-- The numbers of an entry fit their fields. -/
structure ZipEntry.Fits (entry : ZipEntry) : Prop where
  size : entry.size < 2 ^ 32
  nameLen : entry.nameLen < 2 ^ 16
  offset : entry.offset < 2 ^ 32

/-- A name with its content, before it is placed. -/
abbrev Content := List Char × List UInt8

/-- What a content takes in the container, with its header. -/
def Content.room (c : Content) : Nat :=
  localHeaderLen + (Utf8.encode c.1).length + c.2.length

/-- The entry of a content at an offset. -/
def entryAt (H : Hasher) (now : UInt16 × UInt16) (offset : Nat) (c : Content) : ZipEntry :=
  ⟨c.1, H.sum c.2, c.2.length, offset, now.1, now.2⟩

/-- The entries of contents laid out one after the other. -/
def laid (H : Hasher) (now : UInt16 × UInt16) : Nat → List Content → List ZipEntry
  | _, [] => []
  | offset, c :: rest => entryAt H now offset c :: laid H now (offset + c.room) rest

/-- The bytes of contents laid out one after the other. -/
def body (H : Hasher) (now : UInt16 × UInt16) : Nat → List Content → List UInt8
  | _, [] => []
  | offset, c :: rest =>
      (entryAt H now offset c).header ++ (c.2 ++ body H now (offset + c.room) rest)

/-- What contents take in the container. -/
def dataSize (contents : List Content) : Nat := (contents.map Content.room).sum

/-- What their directory takes. -/
def directorySize (contents : List Content) : Nat :=
  (contents.map fun c => centralHeaderLen + (Utf8.encode c.1).length).sum

variable {H : Hasher} {files : Files} {now : UInt16 × UInt16} {w : Writer} {offset : Nat}

theorem writeLocalHeader_ok_iff {name : List Char} {size : Nat} {crc : UInt32}
    {header : List UInt8} : writeLocalHeader name size crc now = .ok header ↔
      size < 2 ^ 32 ∧ (Utf8.encode name).length < 2 ^ 16 ∧
        header = fields (localFields size crc (Utf8.encode name).length now) ++
          Utf8.encode name := by
  simp only [writeLocalHeader, bind_eq_ok_iff, u32Field, u16Field, internal, require_eq_ok_iff]
  constructor
  · rintro ⟨_, ⟨hsize, hs⟩, _, ⟨hlen, hl⟩, hheader⟩
    cases hs
    cases hl
    cases hheader
    exact ⟨hsize, hlen, rfl⟩
  · rintro ⟨hsize, hlen, rfl⟩
    exact ⟨_, ⟨hsize, rfl⟩, _, ⟨hlen, rfl⟩, rfl⟩

/-- The writer after an entry with its content. -/
def Writer.add (w : Writer) (entry : ZipEntry) (data : List UInt8) : Writer :=
  ⟨w.out ++ (entry.header ++ data), w.entries ++ [entry]⟩

/-- What a put leaves, as the functions compute it. -/
theorem put_eq_add (c : Content) :
    ((⟨w.out ++ (fields (localFields c.2.length (H.sum c.2) (Utf8.encode c.1).length now) ++
        Utf8.encode c.1) ++ c.2, w.entries ++ [⟨c.1, H.sum c.2, c.2.length, offset, now.1, now.2⟩]⟩,
      offset + localHeaderLen + (Utf8.encode c.1).length + c.2.length) : Writer × Nat) =
    (w.add (entryAt H now offset c) c.2, offset + c.room) := by
  have hroom : offset + localHeaderLen + (Utf8.encode c.1).length + c.2.length = offset + c.room :=
    by simp only [Content.room, Nat.add_assoc]
  rw [hroom, List.append_assoc w.out]
  rfl

theorem putBytes_ok_iff {c : Content} {r : Writer × Nat} :
    putBytes H w offset c.1 c.2 now = .ok r ↔
      c.2.length < 2 ^ 32 ∧ (Utf8.encode c.1).length < 2 ^ 16 ∧
        r = (w.add (entryAt H now offset c) c.2, offset + c.room) := by
  simp only [putBytes, bind_eq_ok_iff, writeLocalHeader_ok_iff, Except.ok.injEq]
  constructor
  · rintro ⟨_, ⟨hsize, hlen, rfl⟩, rfl⟩
    exact ⟨hsize, hlen, put_eq_add c⟩
  · rintro ⟨hsize, hlen, rfl⟩
    exact ⟨_, ⟨hsize, hlen, rfl⟩, put_eq_add c⟩

/-! ### Parts -/

theorem readChunk_pos : 0 < readChunk := by decide

theorem openPart_ok_iff {part : PulledPart} {content : List UInt8} :
    openPart files part = .ok content ↔ files part.path = .ok content := by
  unfold openPart
  cases files part.path with
  | ok content' =>
      constructor <;>
      · intro h
        cases h
        rfl
  | error error => exact iff_of_false (fun h => nomatch h) (fun h => nomatch h)

/-- The scan of a file sees its bytes and counts them. -/
theorem scan_fold (pieces : List (List UInt8)) (hasher : H.State) (size : Nat) :
    pieces.foldl (fun (hasher, size) read => (H.update hasher read, size + read.length))
      (hasher, size) = (H.update hasher pieces.flatten, size + pieces.flatten.length) := by
  induction pieces generalizing hasher size with
  | nil => rw [List.foldl_nil, List.flatten_nil, H.update_nil, List.length_nil, Nat.add_zero]
  | cons piece pieces ih =>
      rw [List.foldl_cons, ih, List.flatten_cons, H.update_append, List.length_append,
        Nat.add_assoc]

/-- The copy of a file is its bytes. -/
theorem copy_fold (pieces : List (List UInt8)) (out : List UInt8) (written : Nat) :
    pieces.foldl (fun (out, written) read => (out ++ read, written + read.length)) (out, written) =
      (out ++ pieces.flatten, written + pieces.flatten.length) := by
  induction pieces generalizing out written with
  | nil => rw [List.foldl_nil, List.flatten_nil, List.append_nil, List.length_nil, Nat.add_zero]
  | cons piece pieces ih =>
      rw [List.foldl_cons, ih, List.flatten_cons, List.append_assoc, List.length_append,
        Nat.add_assoc]

theorem scanFile_ok_iff {part : PulledPart} {scanned : PartMeta} :
    scanFile H files part = .ok scanned ↔ ∃ content, files part.path = .ok content ∧
      content.length = part.size ∧ scanned = ⟨H.sum content, content.length⟩ := by
  simp only [scanFile, bind_eq_ok_iff, openPart_ok_iff, internal, scan_fold,
    flatten_readAll readChunk_pos, guard_eq_ok_iff, Nat.zero_add, ne_eq, Decidable.not_not,
    Except.ok.injEq]
  constructor
  · rintro ⟨content, hopen, hsize, rfl⟩
    exact ⟨content, hopen, hsize, rfl⟩
  · rintro ⟨content, hopen, hsize, rfl⟩
    exact ⟨content, hopen, hsize, rfl⟩

/-- A part that is as it was scanned is written as its bytes would be. -/
theorem putFile_ok_iff {name : List Char} {part : PulledPart} {data : List UInt8}
    {r : Writer × Nat} (hopen : files part.path = .ok data) :
    putFile files w offset name part ⟨H.sum data, data.length⟩ now = .ok r ↔
      data.length < 2 ^ 32 ∧ (Utf8.encode name).length < 2 ^ 16 ∧
        r = (w.add (entryAt H now offset (name, data)) data,
          offset + Content.room (name, data)) := by
  simp only [putFile, bind_eq_ok_iff, writeLocalHeader_ok_iff, openPart_ok_iff, internal, copy_fold,
    flatten_readAll readChunk_pos, guard_eq_ok_iff, Nat.zero_add, ne_eq, Decidable.not_not,
    Except.ok.injEq, hopen]
  constructor
  · rintro ⟨_, ⟨hsize, hlen, rfl⟩, _, rfl, _, rfl⟩
    exact ⟨hsize, hlen, put_eq_add (name, data)⟩
  · rintro ⟨hsize, hlen, rfl⟩
    exact ⟨_, ⟨hsize, hlen, rfl⟩, _, rfl, rfl, put_eq_add (name, data)⟩

/-- What is put into a container: bytes at hand, or a part. -/
inductive Item where
  | bytes (name : List Char) (data : List UInt8)
  | file (name : List Char) (part : PulledPart)

def Item.name : Item → List Char
  | .bytes name _ => name
  | .file name _ => name

/-- The content of an item; none if a part cannot be read or is not as large as declared. -/
def Item.data (files : Files) : Item → Option (List UInt8)
  | .bytes _ data => some data
  | .file _ part =>
      match files part.path with
      | .ok content => if content.length = part.size then some content else none
      | .error _ => none

/-- One item is put: a part is scanned before. -/
def put (H : Hasher) (files : Files) (now : UInt16 × UInt16) (w : Writer) (offset : Nat) :
    Item → Except Stop (Writer × Nat)
  | .bytes name data => putBytes H w offset name data now
  | .file name part => do
      let scanned ← scanFile H files part
      putFile files w offset name part scanned now

/-- Items are put one after the other. -/
def putAll (H : Hasher) (files : Files) (now : UInt16 × UInt16) :
    List Item → Writer → Nat → Except Stop (Writer × Nat)
  | [], w, offset => .ok (w, offset)
  | item :: rest, w, offset => do
      let (w, offset) ← put H files now w offset item
      putAll H files now rest w offset

theorem data_file_eq_some_iff {name : List Char} {part : PulledPart} {data : List UInt8} :
    (Item.file name part).data files = some data ↔
      files part.path = .ok data ∧ data.length = part.size := by
  simp only [Item.data]
  cases files part.path with
  | error error => exact iff_of_false (fun h => nomatch h) fun h => nomatch h.1
  | ok content =>
      dsimp only
      split
      · next hsize =>
          constructor
          · intro h
            cases h
            exact ⟨rfl, hsize⟩
          · rintro ⟨h, -⟩
            cases h
            rfl
      · next hsize =>
          refine iff_of_false (fun h => nomatch h) ?_
          rintro ⟨h, hlen⟩
          cases h
          exact hsize hlen

/-- **An item is put as its name and its content**, whichever function puts it. -/
theorem put_ok_iff {item : Item} {r : Writer × Nat} : put H files now w offset item = .ok r ↔
    ∃ data, item.data files = some data ∧ data.length < 2 ^ 32 ∧
      (Utf8.encode item.name).length < 2 ^ 16 ∧
        r = (w.add (entryAt H now offset (item.name, data)) data,
          offset + Content.room (item.name, data)) := by
  cases item with
  | bytes name data =>
      rw [put, putBytes_ok_iff (c := (name, data))]
      constructor
      · exact fun h => ⟨data, rfl, h⟩
      · rintro ⟨_, h, hrest⟩
        cases h
        exact hrest
  | file name part =>
      simp only [put, bind_eq_ok_iff, scanFile_ok_iff, data_file_eq_some_iff]
      constructor
      · rintro ⟨_, ⟨data, hopen, hsize, rfl⟩, hput⟩
        exact ⟨data, ⟨hopen, hsize⟩, (putFile_ok_iff hopen).mp hput⟩
      · rintro ⟨data, ⟨hopen, hsize⟩, hput⟩
        exact ⟨_, ⟨data, hopen, hsize, rfl⟩, (putFile_ok_iff hopen).mpr hput⟩

/-- The contents of items, where they can be read. -/
def contentsOf (files : Files) (items : List Item) : List Content :=
  items.map fun item => (item.name, (item.data files).getD [])

/-- The item can be read, and its content and its name fit. -/
def Item.Fits (files : Files) (item : Item) : Prop :=
  ∃ data, item.data files = some data ∧ data.length < 2 ^ 32 ∧
    (Utf8.encode item.name).length < 2 ^ 16

/-- **A run of puts lays its contents out one after the other.** -/
theorem putAll_ok_iff {items : List Item} {r : Writer × Nat} :
    putAll H files now items w offset = .ok r ↔ (∀ item ∈ items, item.Fits files) ∧
      r = (⟨w.out ++ body H now offset (contentsOf files items),
        w.entries ++ laid H now offset (contentsOf files items)⟩,
        offset + dataSize (contentsOf files items)) := by
  induction items generalizing w offset with
  | nil =>
      simp only [putAll, contentsOf, List.map_nil, body, laid, dataSize, List.append_nil,
        List.sum_nil, Nat.add_zero, List.not_mem_nil, false_implies, implies_true, true_and,
        Except.ok.injEq]
      exact eq_comm
  | cons item items ih =>
      simp only [putAll, bind_eq_ok_iff, put_ok_iff, List.forall_mem_cons]
      constructor
      · rintro ⟨_, ⟨data, hdata, hsize, hlen, rfl⟩, hrest⟩
        obtain ⟨hfits, rfl⟩ := ih.mp hrest
        refine ⟨⟨⟨data, hdata, hsize, hlen⟩, hfits⟩, ?_⟩
        simp only [contentsOf, List.map_cons, hdata, Option.getD_some, body, laid, dataSize,
          Writer.add, List.sum_cons, List.append_assoc, List.singleton_append, Nat.add_assoc]
      · rintro ⟨⟨⟨data, hdata, hsize, hlen⟩, hfits⟩, rfl⟩
        refine ⟨_, ⟨data, hdata, hsize, hlen, rfl⟩, ih.mpr ⟨hfits, ?_⟩⟩
        simp only [contentsOf, List.map_cons, hdata, Option.getD_some, body, laid, dataSize,
          Writer.add, List.sum_cons, List.append_assoc, List.singleton_append, Nat.add_assoc]

/-! ### Where the contents lie -/

/-- An entry stands in a file with its content. -/
structure Stands (H : Hasher) (file : List UInt8) (entry : ZipEntry) (c : Content) : Prop where
  name : entry.name = c.1
  size : entry.size = c.2.length
  crc : entry.crc = H.sum c.2
  placed : ∃ before after, file = before ++ (entry.header ++ (c.2 ++ after)) ∧
    before.length = entry.offset

@[simp] theorem width_head (entry : ZipEntry) : width entry.head = localHeaderLen := by
  simp only [width, ZipEntry.head, localFields, List.map_cons, List.map_nil, List.sum_cons,
    List.sum_nil]
  rfl

@[simp] theorem width_central (entry : ZipEntry) : width entry.central = centralHeaderLen := by
  simp only [width, ZipEntry.central, centralFields, List.map_cons, List.map_nil, List.sum_cons,
    List.sum_nil]
  rfl

theorem length_header (entry : ZipEntry) :
    entry.header.length = localHeaderLen + entry.nameLen := by
  rw [ZipEntry.header, List.length_append, length_fields, width_head]
  rfl

theorem length_record (entry : ZipEntry) :
    entry.record.length = centralHeaderLen + entry.nameLen := by
  rw [ZipEntry.record, List.length_append, length_fields, width_central]
  rfl

theorem length_body (H : Hasher) (now : UInt16 × UInt16) (contents : List Content) (offset : Nat) :
    (body H now offset contents).length = dataSize contents := by
  induction contents generalizing offset with
  | nil => rfl
  | cons c rest ih =>
      have hsum : dataSize (c :: rest) = c.room + dataSize rest := List.sum_cons
      rw [body, List.length_append, List.length_append, length_header, ih, hsum, ← Nat.add_assoc]
      rfl

/-- **Every content stands where its entry says**, whatever precedes and follows them all. -/
theorem stands_laid (H : Hasher) (now : UInt16 × UInt16) (contents : List Content)
    (before after : List UInt8) :
    List.Forall₂ (Stands H (before ++ (body H now before.length contents ++ after)))
      (laid H now before.length contents) contents := by
  induction contents generalizing before with
  | nil => exact .nil
  | cons c rest ih =>
      refine .cons ⟨rfl, rfl, rfl, before, body H now (before.length + c.room) rest ++ after, ?_,
        rfl⟩ ?_
      · simp only [body, List.append_assoc]
      · have hlen : (before ++ ((entryAt H now before.length c).header ++ c.2)).length =
            before.length + c.room := by
          rw [List.length_append, List.length_append, length_header]
          rfl
        have hrest := ih (before ++ ((entryAt H now before.length c).header ++ c.2))
        rw [hlen] at hrest
        simpa only [body, laid, List.append_assoc] using hrest

/-- The entries of contents that fit fit. -/
theorem fits_laid (contents : List Content) (hsize : offset + dataSize contents < 2 ^ 32)
    (hname : ∀ c ∈ contents, (Utf8.encode c.1).length < 2 ^ 16) :
    ∀ entry ∈ laid H now offset contents, entry.Fits := by
  induction contents generalizing offset with
  | nil => exact fun _ h => nomatch h
  | cons c rest ih =>
      rw [List.forall_mem_cons] at hname
      have hsum : dataSize (c :: rest) = c.room + dataSize rest := List.sum_cons
      have hroom : c.room = localHeaderLen + (Utf8.encode c.1).length + c.2.length := rfl
      rw [laid, List.forall_mem_cons]
      refine ⟨⟨?_, hname.1, ?_⟩, ih (by omega) hname.2⟩
      · show c.2.length < 2 ^ 32
        omega
      · show offset < 2 ^ 32
        omega

/-! ### Reading an entry back -/

/-- The loop of `stream_entry_to_file` sees the bytes it was given. -/
theorem stream_fold (pieces : List (List UInt8)) (hasher : H.State) (out : List UInt8)
    (left : Nat) : pieces.foldl (fun (hasher, out, left) read =>
      (H.update hasher read, out ++ read, left - read.length)) (hasher, out, left) =
    (H.update hasher pieces.flatten, out ++ pieces.flatten, left - pieces.flatten.length) := by
  induction pieces generalizing hasher out left with
  | nil => rw [List.foldl_nil, List.flatten_nil, H.update_nil, List.append_nil, List.length_nil,
      Nat.sub_zero]
  | cons piece pieces ih =>
      rw [List.foldl_cons, ih, List.flatten_cons, H.update_append, List.append_assoc,
        List.length_append, Nat.sub_add_eq]

/-- **A content that stands in the file is streamed out as it is.** -/
theorem stream_of_stands {source : List UInt8} {entry : ZipEntry} {c : Content}
    (hstands : Stands H source entry c) (hfits : entry.Fits) (target : List Char) (host : Host) :
    streamEntryToFile H source entry.listed target host = (.ok (), host.write target c.2) := by
  obtain ⟨-, hsize, hcrc, before, after, hfile, hbefore⟩ := hstands
  have hdrop : source.drop entry.offset = entry.header ++ (c.2 ++ after) := by
    rw [hfile, ← hbefore, List.drop_left]
  have hdata : source.drop (entry.offset + localHeaderLen + entry.nameLen) = c.2 ++ after := by
    rw [Nat.add_assoc, ← List.drop_drop, hdrop, ← length_header, List.drop_left]
  have hheader : (source.drop entry.offset).take localHeaderLen = fields entry.head := by
    rw [hdrop, ZipEntry.header, List.append_assoc]
    exact List.take_left' ((length_fields _).trans (width_head entry))
  have hmagic : (fields entry.head).take 4 = toLeBytes 4 localMagic := rfl
  have hlen : numberAt 2 26 (fields entry.head) = some entry.nameLen :=
    numberAt_field entry.head 9 rfl rfl hfits.nameLen
  have hstored : numberAt 4 18 (fields entry.head) = some entry.size :=
    numberAt_field entry.head 7 rfl rfl hfits.size
  have hsum : numberAt 4 14 (fields entry.head) = some entry.crc.toNat :=
    numberAt_field entry.head 6 rfl rfl entry.crc.toNat_lt
  have hread : (readUpTo readChunk c.2.length (c.2 ++ after)).flatten = c.2 := by
    rw [flatten_readUpTo readChunk_pos, List.take_left]
  have hcheck : H.finalize (H.update H.new c.2) = entry.crc := hcrc.symm
  unfold streamEntryToFile
  simp only [ZipEntry.listed, hheader, length_fields, width_head, Nat.lt_irrefl, if_false, hmagic,
    fromLeBytes_of_numberAt hlen, fromLeBytes_of_numberAt hstored, fromLeBytes_of_numberAt hsum,
    ne_eq, not_true_eq_false, or_self, hdata, stream_fold, hsize, hread,
    List.nil_append, Nat.sub_self, hcheck]

/-! ### The directory -/

/-- A number of a directory record is read as it was written. -/
theorem numberAt_record {entry : ZipEntry} (k : Nat) {n m pos : Nat} (before after : List UInt8)
    (hk : entry.central[k]? = some (n, m)) (hpos : width (entry.central.take k) = pos)
    (h : m < 256 ^ n) :
    numberAt n (before.length + pos) (before ++ (entry.record ++ after)) = some m := by
  rw [numberAt_append_left, ZipEntry.record, List.append_assoc]
  exact numberAt_append_right _ (numberAt_field _ k hk hpos h)

theorem readNumber_ok_iff {n pos m : Nat} {bytes : List UInt8} :
    readNumber n bytes pos = .ok m ↔ numberAt n pos bytes = some m := by
  unfold readNumber
  cases numberAt n pos bytes with
  | none => exact iff_of_false (fun h => nomatch h) (fun h => nomatch h)
  | some m' =>
      constructor <;>
      · intro h
        cases h
        rfl

/-- **A record of the directory is read as its entry.** -/
theorem readEntry_record {entry : ZipEntry} (hfits : entry.Fits) (before after : List UInt8) :
    readEntry (before ++ (entry.record ++ after)) before.length =
      .ok (entry.listed, before.length + entry.record.length) := by
  have hoffset : width (entry.central.take 16) = 42 := by
    simp [width, ZipEntry.central, centralFields]
  have hstart : (before ++ fields entry.central).length = before.length + 46 := by
    rw [List.length_append, length_fields, width_central]
    rfl
  have hstop : (before ++ fields entry.central ++ Utf8.encode entry.name).length =
      before.length + 46 + entry.nameLen := by
    rw [List.length_append, hstart]
    rfl
  have hname : slice (before ++ (entry.record ++ after)) (before.length + 46)
      (before.length + 46 + entry.nameLen) = .ok (Utf8.encode entry.name) := by
    rw [← hstop, ← hstart, ZipEntry.record, List.append_assoc, ← List.append_assoc before,
      ← List.append_assoc _ _ after, slice, List.take_left, List.drop_left, if_pos]
    exact (List.prefix_append _ after).length_le
  simp only [readEntry, internal, guard_eq_ok_iff, bind_eq_ok_iff, readNumber_ok_iff, ne_eq,
    Decidable.not_not]
  refine ⟨numberAt_record 0 before after rfl rfl (by decide), _,
    numberAt_record 4 before after rfl rfl (by decide), rfl, _,
    numberAt_record 7 before after rfl rfl entry.crc.toNat_lt, _,
    numberAt_record 9 before after rfl rfl hfits.size, _,
    numberAt_record 10 before after rfl rfl hfits.nameLen, _,
    numberAt_record 16 before after rfl hoffset hfits.offset, _, hname, ?_⟩
  rw [Utf8.fromUtf8_encode, length_record, UInt32.ofNat_toNat]
  rfl

/-- The records of a directory, one after the other. -/
def directory (entries : List ZipEntry) : List UInt8 := entries.flatMap ZipEntry.record

/-- **The directory is read as its entries.** -/
theorem readEntries_directory {entries : List ZipEntry} (hfits : ∀ entry ∈ entries, entry.Fits)
    (before : List UInt8) :
    readEntries (before ++ directory entries) entries.length before.length =
      .ok (entries.map ZipEntry.listed, (before ++ directory entries).length) := by
  induction entries generalizing before with
  | nil => rw [directory, List.flatMap_nil, List.append_nil]; rfl
  | cons entry rest ih =>
      rw [List.forall_mem_cons] at hfits
      have hrest := ih hfits.2 (before ++ entry.record)
      rw [List.append_assoc, List.length_append] at hrest
      have hdir : directory (entry :: rest) = entry.record ++ directory rest := rfl
      rw [hdir, List.length_cons, readEntries, readEntry_record hfits.1]
      exact bind_eq_ok_iff.mpr ⟨_, rfl, bind_eq_ok_iff.mpr ⟨_, hrest, rfl⟩⟩

theorem centralHeader_ok_iff {entry : ZipEntry} {header : List UInt8} :
    centralHeader entry = .ok header ↔ entry.Fits ∧ header = entry.record := by
  simp only [centralHeader, bind_eq_ok_iff, u32Field, u16Field, internal, require_eq_ok_iff]
  constructor
  · rintro ⟨_, ⟨hsize, hs⟩, _, ⟨hlen, hl⟩, _, ⟨hoffset, ho⟩, hheader⟩
    cases hs
    cases hl
    cases ho
    cases hheader
    exact ⟨⟨hsize, hlen, hoffset⟩, rfl⟩
  · rintro ⟨⟨hsize, hlen, hoffset⟩, rfl⟩
    exact ⟨_, ⟨hsize, rfl⟩, _, ⟨hlen, rfl⟩, _, ⟨hoffset, rfl⟩, rfl⟩

theorem writeCentral_ok_iff {entries : List ZipEntry} {bytes : List UInt8} :
    writeCentral entries = .ok bytes ↔
      (∀ entry ∈ entries, entry.Fits) ∧ bytes = directory entries := by
  induction entries generalizing bytes with
  | nil =>
      simp only [writeCentral, directory, List.flatMap_nil, List.not_mem_nil, false_implies,
        implies_true, true_and, Except.ok.injEq]
      exact eq_comm
  | cons entry rest ih =>
      simp only [writeCentral, bind_eq_ok_iff, centralHeader_ok_iff, ih, List.forall_mem_cons]
      constructor
      · rintro ⟨_, ⟨hfits, rfl⟩, _, ⟨hrest, rfl⟩, h⟩
        cases h
        exact ⟨⟨hfits, hrest⟩, rfl⟩
      · rintro ⟨⟨hfits, hrest⟩, rfl⟩
        exact ⟨_, ⟨hfits, rfl⟩, _, ⟨hrest, rfl⟩, rfl⟩

theorem length_directory (entries : List ZipEntry) : (directory entries).length =
    entries.length * centralHeaderLen + (entries.map fun entry => entry.nameLen).sum := by
  induction entries with
  | nil => rfl
  | cons entry rest ih =>
      have hdir : directory (entry :: rest) = entry.record ++ directory rest := rfl
      rw [hdir, List.length_append, length_record, ih, List.length_cons, List.map_cons,
        List.sum_cons, Nat.succ_mul]
      omega

/-- The end record of a directory. -/
def endRecord (entries : List ZipEntry) (endOfData : Nat) : List UInt8 :=
  toLeBytes 4 endMagic ++ endFields entries.length (directory entries).length endOfData

/-- The numbers of the end record. -/
def endNumbers (entries : List ZipEntry) (endOfData : Nat) : List (Nat × Nat) :=
  [(4, endMagic), (2, 0), (2, 0), (2, entries.length), (2, entries.length),
    (4, (directory entries).length), (4, endOfData), (2, 0)]

theorem finishZip_ok_iff {entries : List ZipEntry} {endOfData : Nat} {bytes : List UInt8} :
    finishZip entries endOfData = .ok bytes ↔ (∀ entry ∈ entries, entry.Fits) ∧
      entries.length < 2 ^ 16 ∧ (directory entries).length < 2 ^ 32 ∧ endOfData < 2 ^ 32 ∧
        bytes = directory entries ++ endRecord entries endOfData := by
  have hlen : (directory entries).length = entries.length * centralHeaderLen +
      (entries.map fun entry => (Utf8.encode entry.name).length).sum := length_directory entries
  simp only [finishZip, bind_eq_ok_iff, writeCentral_ok_iff, u32Field, u16Field, internal,
    require_eq_ok_iff, ← hlen]
  constructor
  · rintro ⟨_, ⟨hfits, rfl⟩, _, ⟨hcount, hc⟩, _, ⟨hsize, hs⟩, _, ⟨hend, he⟩, h⟩
    cases hc
    cases hs
    cases he
    cases h
    exact ⟨hfits, hcount, hsize, hend, rfl⟩
  · rintro ⟨hfits, hcount, hsize, hend, rfl⟩
    exact ⟨_, ⟨hfits, rfl⟩, _, ⟨hcount, rfl⟩, _, ⟨hsize, rfl⟩, _, ⟨hend, rfl⟩, rfl⟩

/-! ### The end record -/

theorem readNumber_cases (n : Nat) (bytes : List UInt8) (pos : Nat) :
    readNumber n bytes pos = .error .panicked ∨ ∃ m, readNumber n bytes pos = .ok m := by
  unfold readNumber
  cases numberAt n pos bytes with
  | none => exact .inl rfl
  | some m => exact .inr ⟨m, rfl⟩

theorem readNumber_over {n pos : Nat} {bytes : List UInt8} (h : bytes.length < pos + n) :
    readNumber n bytes pos = .error .panicked := by
  rw [readNumber, numberAt_eq_none_iff.mpr h]

/-- **A magic so near the end that its record does not fit is a panic.** -/
theorem readBundle_over {file : List UInt8} {i : Nat} (hlen : eocdLen ≤ file.length)
    (hmagic : rposition (toLeBytes 4 endMagic) (tailOf file) = some i)
    (hover : (tailOf file).length < i + 20) : readBundle file = .error .panicked := by
  have hlast : readNumber 4 (tailOf file) (i + 16) = .error .panicked := readNumber_over hover
  rw [readBundle, if_neg (Nat.not_lt.mpr hlen)]
  simp only [hmagic]
  rcases readNumber_cases 2 (tailOf file) (i + 10) with hcount | ⟨count, hcount⟩
  · rw [hcount]
    rfl
  rcases readNumber_cases 4 (tailOf file) (i + 12) with hsize | ⟨cdSize, hsize⟩
  · rw [hcount, hsize]
    rfl
  · rw [hcount, hsize, hlast]
    rfl

/-- The magic does not stand again in what follows it. -/
def Quiet (count cdSize cdOffset : Nat) : Prop :=
  rposition (toLeBytes 4 endMagic) (endFields count cdSize cdOffset) = none

instance (count cdSize cdOffset : Nat) : Decidable (Quiet count cdSize cdOffset) :=
  inferInstanceAs (Decidable (_ = none))

theorem endMagic_bytes : toLeBytes 4 endMagic = [0x50, 0x4B, 0x05, 0x06] := by decide

/-- The magic is found at its place if it does not stand again after it. -/
theorem rposition_magic {rest : List UInt8} (h : rposition (toLeBytes 4 endMagic) rest = none) :
    rposition (toLeBytes 4 endMagic) (toLeBytes 4 endMagic ++ rest) = some 0 := by
  rw [endMagic_bytes] at h ⊢
  have h6 := (rposition_cons_none (a := 0x06) h).trans (if_neg (by simp))
  have h5 := (rposition_cons_none (a := 0x05) h6).trans (if_neg (by simp))
  have h4 := (rposition_cons_none (a := 0x4B) h5).trans (if_neg (by simp))
  exact (rposition_cons_none h4).trans (if_pos (by simp))

/-- The container: what was written, the directory and the end record. -/
def container (out : List UInt8) (entries : List ZipEntry) : List UInt8 :=
  out ++ (directory entries ++ endRecord entries out.length)

theorem length_endFields (count cdSize cdOffset : Nat) :
    (endFields count cdSize cdOffset).length = 18 := by
  rw [endFields, length_fields]
  rfl

theorem length_endRecord (entries : List ZipEntry) (endOfData : Nat) :
    (endRecord entries endOfData).length = eocdLen := by
  rw [endRecord, List.length_append, length_toLeBytes, length_endFields]
  rfl

/-- The tail of a container ends with the end record. -/
theorem tailOf_container (out : List UInt8) (entries : List ZipEntry) :
    ∃ before, tailOf (container out entries) = before ++ endRecord entries out.length := by
  have hlen : (container out entries).length = (out ++ directory entries).length + eocdLen := by
    rw [container, ← List.append_assoc, List.length_append, length_endRecord]
  have htail : eocdLen ≤ tailBytes := by decide
  rw [tailOf, hlen, container, ← List.append_assoc, List.drop_append_of_le_length (by omega)]
  exact ⟨_, rfl⟩

variable {out : List UInt8} {entries : List ZipEntry}

/-- A loud end record is taken for another. -/
theorem readBundle_loud (hloud : ¬ Quiet entries.length (directory entries).length out.length) :
    readBundle (container out entries) = .error .panicked := by
  obtain ⟨before, htail⟩ := tailOf_container out entries
  obtain ⟨i, hi⟩ := Option.ne_none_iff_exists'.mp hloud
  have hlen : eocdLen ≤ (container out entries).length := by
    rw [container, List.length_append, List.length_append, length_endRecord]
    omega
  have hfour := rposition_append (toLeBytes 4 endMagic) hi
  have hplace := rposition_append before hfour
  refine readBundle_over hlen (htail ▸ hplace) ?_
  have hlt := rposition_lt hi
  rw [length_endFields] at hlt
  rw [htail, List.length_append, length_endRecord, length_toLeBytes]
  unfold eocdLen
  omega

/-- **A container with a quiet end record is read as its entries.** -/
theorem readBundle_quiet (hfits : ∀ entry ∈ entries, entry.Fits)
    (hcount : entries.length < 2 ^ 16) (hsize : (directory entries).length < 2 ^ 32)
    (hend : out.length < 2 ^ 32)
    (hquiet : Quiet entries.length (directory entries).length out.length) :
    readBundle (container out entries) = .ok (entries.map ZipEntry.listed) := by
  obtain ⟨before, htail⟩ := tailOf_container out entries
  have hlen : (container out entries).length =
      out.length + (directory entries).length + eocdLen := by
    rw [container, List.length_append, List.length_append, length_endRecord, Nat.add_assoc]
  have hmagic : rposition (toLeBytes 4 endMagic) (tailOf (container out entries)) =
      some before.length := by
    rw [htail]
    exact rposition_append before (rposition_magic hquiet)
  have hnumber : ∀ (k : Nat) {n m pos : Nat},
      (endNumbers entries out.length)[k]? = some (n, m) →
      width ((endNumbers entries out.length).take k) = pos → m < 256 ^ n →
      readNumber n (tailOf (container out entries)) (before.length + pos) = .ok m := by
    intro k n m pos hk hpos hm
    rw [readNumber_ok_iff, htail, numberAt_append_left]
    exact numberAt_field _ k hk hpos hm
  have hcd : ((container out entries).drop out.length).take (directory entries).length =
      directory entries := by
    rw [container, List.drop_left, List.take_left]
  have hread := readEntries_directory hfits []
  rw [List.nil_append, List.length_nil] at hread
  rw [readBundle, if_neg (by omega)]
  simp only [hmagic, bind_eq_ok_iff, guard_eq_ok_iff, internal]
  refine ⟨_, hnumber 4 rfl rfl hcount, _, hnumber 5 rfl rfl hsize, _, hnumber 6 rfl rfl hend,
    fun h => h hlen.symm, (entries.map ZipEntry.listed, (directory entries).length), ?_,
    fun h => h rfl, rfl⟩
  rw [hcd, hread]

/-! ### The round trip -/

/-- An entry is streamed out of the container as the content of the item it was made of. -/
def ReadsBack (H : Hasher) (files : Files) (zip : List UInt8) (entry : ZipEntry) (item : Item) :
    Prop :=
  ∃ data, item.data files = some data ∧ entry.name = item.name ∧ entry.size = data.length ∧
    entry.crc = H.sum data ∧ ∀ (target : List Char) (host : Host),
      streamEntryToFile H zip entry.listed target host = (.ok (), host.write target data)

/-- **The round trip**: the items can be put, the reader lists their entries in order, and each is
streamed out as it was put. -/
def RoundTrip (H : Hasher) (files : Files) (now : UInt16 × UInt16) (items : List Item) : Prop :=
  ∃ w offset finish, putAll H files now items ⟨[], []⟩ 0 = .ok (w, offset) ∧
    finishZip w.entries offset = .ok finish ∧
    readBundle (w.out ++ finish) = .ok (w.entries.map ZipEntry.listed) ∧
    List.Forall₂ (ReadsBack H files (w.out ++ finish)) w.entries items

/-- The items can be read, and everything fits its field: names, the number of entries, the
directory, and the offsets. -/
structure FitsZip (files : Files) (items : List Item) : Prop where
  read : ∀ item ∈ items, (item.data files).isSome
  names : ∀ item ∈ items, (Utf8.encode item.name).length ≤ 65535
  count : items.length ≤ 65535
  directory : directorySize (contentsOf files items) < 2 ^ 32
  offsets : dataSize (contentsOf files items) < 2 ^ 32

instance (files : Files) (items : List Item) : Decidable (FitsZip files items) :=
  decidable_of_iff ((∀ item ∈ items, (item.data files).isSome) ∧
    (∀ item ∈ items, (Utf8.encode item.name).length ≤ 65535) ∧ items.length ≤ 65535 ∧
    directorySize (contentsOf files items) < 2 ^ 32 ∧ dataSize (contentsOf files items) < 2 ^ 32)
    ⟨fun ⟨hread, hnames, hcount, hdir, hoff⟩ => ⟨hread, hnames, hcount, hdir, hoff⟩,
      fun ⟨hread, hnames, hcount, hdir, hoff⟩ => ⟨hread, hnames, hcount, hdir, hoff⟩⟩

/-- The end record of the items is quiet. -/
def QuietItems (files : Files) (items : List Item) : Prop :=
  Quiet items.length (directorySize (contentsOf files items)) (dataSize (contentsOf files items))

instance (files : Files) (items : List Item) : Decidable (QuietItems files items) :=
  inferInstanceAs (Decidable (Quiet _ _ _))

/-- Lists related element by element, by what their members are besides. -/
theorem forall₂_of_mem {α β : Type} {R S : α → β → Prop} {l : List α} {u : List β}
    (h : List.Forall₂ R l u) (himp : ∀ a ∈ l, ∀ b ∈ u, R a b → S a b) : List.Forall₂ S l u := by
  induction h with
  | nil => exact .nil
  | cons hab _ ih =>
      exact .cons (himp _ List.mem_cons_self _ List.mem_cons_self hab)
        (ih fun a ha b hb => himp a (List.mem_cons_of_mem _ ha) b (List.mem_cons_of_mem _ hb))

/-- A member of a list has the member of the other that it is related to. -/
theorem exists_of_forall₂ {α β : Type} {R : α → β → Prop} {l : List α} {u : List β}
    (h : List.Forall₂ R l u) : ∀ a ∈ l, ∃ b ∈ u, R a b := by
  induction h with
  | nil => exact fun _ h => nomatch h
  | cons hab _ ih =>
      rw [List.forall_mem_cons]
      refine ⟨⟨_, List.mem_cons_self, hab⟩, fun a ha => ?_⟩
      obtain ⟨b, hb, hR⟩ := ih a ha
      exact ⟨b, List.mem_cons_of_mem _ hb, hR⟩

section RoundTrip

variable {items : List Item}

theorem length_laid (contents : List Content) (offset : Nat) :
    (laid H now offset contents).length = contents.length := by
  induction contents generalizing offset with
  | nil => rfl
  | cons c rest ih => rw [laid, List.length_cons, ih, List.length_cons]

theorem length_directory_laid (contents : List Content) (offset : Nat) :
    (directory (laid H now offset contents)).length = directorySize contents := by
  induction contents generalizing offset with
  | nil => rfl
  | cons c rest ih =>
      have hdir : directory (laid H now offset (c :: rest)) =
          (entryAt H now offset c).record ++ directory (laid H now (offset + c.room) rest) := rfl
      rw [hdir, List.length_append, length_record, ih]
      rfl

theorem room_le_dataSize {contents : List Content} {c : Content} (h : c ∈ contents) :
    c.room ≤ dataSize contents := List.le_sum_of_mem (List.mem_map_of_mem h)

theorem fits_of_fitsZip (h : FitsZip files items) : ∀ item ∈ items, item.Fits files := by
  intro item hitem
  obtain ⟨data, hdata⟩ := Option.isSome_iff_exists.mp (h.read item hitem)
  have hmem : (item.name, data) ∈ contentsOf files items :=
    List.mem_map.mpr ⟨item, hitem, by rw [hdata]; rfl⟩
  have hroom := room_le_dataSize hmem
  have hsize := h.offsets
  have hname := h.names item hitem
  refine ⟨data, hdata, ?_, by omega⟩
  have hdef : Content.room (item.name, data) =
      localHeaderLen + (Utf8.encode item.name).length + data.length := rfl
  omega

/-- What the writer leaves of items that fit. -/
theorem written_of_fits (H : Hasher) (now : UInt16 × UInt16) (h : FitsZip files items) :
    ∃ w, putAll H files now items ⟨[], []⟩ 0 = .ok (w, w.out.length) ∧
      finishZip w.entries w.out.length =
        .ok (directory w.entries ++ endRecord w.entries w.out.length) ∧
      w.out = body H now 0 (contentsOf files items) ∧
      w.entries = laid H now 0 (contentsOf files items) ∧ ∀ entry ∈ w.entries, entry.Fits := by
  have hput : putAll H files now items ⟨[], []⟩ 0 = _ :=
    putAll_ok_iff.mpr ⟨fits_of_fitsZip h, rfl⟩
  have hlen := length_body H now (contentsOf files items) 0
  have hnames : ∀ c ∈ contentsOf files items, (Utf8.encode c.1).length < 2 ^ 16 := by
    intro c hc
    obtain ⟨item, hitem, rfl⟩ := List.mem_map.mp hc
    exact Nat.lt_succ_of_le (h.names item hitem)
  have hfits : ∀ entry ∈ laid H now 0 (contentsOf files items), entry.Fits :=
    fits_laid (contentsOf files items) (by rw [Nat.zero_add]; exact h.offsets) hnames
  rw [List.nil_append, List.nil_append, Nat.zero_add, ← hlen] at hput
  refine ⟨⟨body H now 0 (contentsOf files items), laid H now 0 (contentsOf files items)⟩, hput,
    finishZip_ok_iff.mpr ⟨hfits, ?_, ?_, ?_, rfl⟩, rfl, rfl, hfits⟩
  · rw [length_laid, contentsOf, List.length_map]
    exact Nat.lt_succ_of_le h.count
  · rw [length_directory_laid]
    exact h.directory
  · rw [hlen]
    exact h.offsets

/-- **Whatever was put is streamed out as it was put**, once the directory is written. -/
theorem readsBack_of_put {w : Writer} {offset : Nat} {finish : List UInt8}
    (hput : putAll H files now items ⟨[], []⟩ 0 = .ok (w, offset))
    (hfinish : finishZip w.entries offset = .ok finish) :
    List.Forall₂ (ReadsBack H files (w.out ++ finish)) w.entries items := by
  obtain ⟨hitems, hw⟩ := putAll_ok_iff.mp hput
  obtain ⟨hfits, -⟩ := finishZip_ok_iff.mp hfinish
  cases hw
  rw [List.nil_append] at hfits ⊢
  have hstands := stands_laid H now (contentsOf files items) [] finish
  rw [contentsOf, List.forall₂_map_right_iff] at hstands
  refine forall₂_of_mem hstands fun entry hentry item hitem hs => ?_
  obtain ⟨data, hdata, -, -⟩ := hitems item hitem
  rw [hdata, Option.getD_some] at hs
  exact ⟨data, hdata, hs.name, hs.size, hs.crc, stream_of_stands hs (hfits entry hentry)⟩

/-- Items whose end record is quiet come back. -/
theorem roundTrip_of_quiet (h : FitsZip files items) (hquiet : QuietItems files items) :
    RoundTrip H files now items := by
  obtain ⟨w, hput, hfinish, hout, hentries, hfits⟩ := written_of_fits H now h
  obtain ⟨-, hcount, hsize, hend, -⟩ := finishZip_ok_iff.mp hfinish
  have hquiet' : Quiet w.entries.length (directory w.entries).length w.out.length := by
    rw [hentries, hout, length_laid, length_directory_laid, length_body, contentsOf,
      List.length_map]
    exact hquiet
  exact ⟨w, w.out.length, _, hput, hfinish, readBundle_quiet hfits hcount hsize hend hquiet',
    readsBack_of_put hput hfinish⟩

/-- Items that come back have a quiet end record. -/
theorem quiet_of_roundTrip (h : FitsZip files items) (htrip : RoundTrip H files now items) :
    QuietItems files items := by
  obtain ⟨w, hput, hfinish, hout, hentries, -⟩ := written_of_fits H now h
  obtain ⟨w', offset, finish, hput', hfinish', hread, -⟩ := htrip
  cases hput.symm.trans hput'
  cases hfinish.symm.trans hfinish'
  by_contra hloud
  have hloud' : ¬ Quiet w.entries.length (directory w.entries).length w.out.length := by
    rw [hentries, hout, length_laid, length_directory_laid, length_body, contentsOf,
      List.length_map]
    exact hloud
  cases (readBundle_loud hloud').symm.trans hread

/-- **Everything that fits comes back exactly if the numbers of the end record do not spell its
magic again.** -/
theorem round_trip_iff_quiet (H : Hasher) (files : Files) (now : UInt16 × UInt16)
    (items : List Item) (h : FitsZip files items) :
    RoundTrip H files now items ↔ QuietItems files items :=
  ⟨quiet_of_roundTrip h, roundTrip_of_quiet h⟩

/-- One byte under the name `a`. -/
theorem round_trip_one : FitsZip (fun _ => .error "") [.bytes ['a'] [7]] ∧
    RoundTrip crc32 (fun _ => .error "") (0, 0) [.bytes ['a'] [7]] := by
  have hfits : FitsZip (fun _ => .error "") [.bytes ['a'] [7]] := by decide
  exact ⟨hfits, (round_trip_iff_quiet crc32 _ (0, 0) _ hfits).mpr (by decide)⟩

/-- A file of zeros under the name `a`. -/
def zeros (n : Nat) : Item := .bytes ['a'] (List.replicate n 0)

theorem dataSize_zeros (files : Files) (n : Nat) :
    dataSize (contentsOf files [zeros n]) = 31 + n := by
  have hroom : Content.room (['a'], List.replicate n 0) =
      31 + (List.replicate n (0 : UInt8)).length := rfl
  exact hroom.trans (by rw [List.length_replicate])

theorem directorySize_zeros (files : Files) (n : Nat) :
    directorySize (contentsOf files [zeros n]) = 47 := rfl

/-- Zeros up to the 32-bit limit fit. -/
theorem fits_zeros (files : Files) {n : Nat} (h : 31 + n < 2 ^ 32) : FitsZip files [zeros n] where
  read := List.forall_mem_singleton.mpr rfl
  names := List.forall_mem_singleton.mpr (show (Utf8.encode ['a']).length ≤ 65535 by decide)
  count := by
    rw [List.length_singleton]
    decide
  directory := by
    rw [directorySize_zeros]
    decide
  offsets := by
    rw [dataSize_zeros]
    exact h

/-- **A file of 101010225 zeros under the name `a` is not read back**: its directory begins at the
number of the magic. -/
theorem zeros_do_not_come_back : ¬ ∀ (H : Hasher) (files : Files) (now : UInt16 × UInt16)
    (items : List Item), FitsZip files items → RoundTrip H files now items := by
  intro hall
  have hfits : FitsZip (fun _ => .error "") [zeros 101010225] := fits_zeros _ (by decide)
  have hquiet := quiet_of_roundTrip hfits (hall crc32 (fun _ => .error "") (0, 0) _ hfits)
  rw [QuietItems, directorySize_zeros, dataSize_zeros] at hquiet
  exact absurd hquiet (by decide)

end RoundTrip

end RevBox.ApkBundle
