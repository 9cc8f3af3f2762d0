/-
The shape of what is written.

A record has sixteen bits for its address, so a written image is laid out by pages.  Each piece
of a segment goes into one data record.  Ahead of it stands the record that turns to its page,
but only where another page is in force; that page stays in force from one segment to the next,
however they lie.

That no record reaches across a page does not show when the image is read back here, for the
reader takes a record at its address whatever the page.  Others do depend on it.
-/
import UsbBoot.Proofs.Image.RoundTrip
import UsbBoot.Proofs.Pass.RamScript

namespace UsbBoot.Image

/-! ### Where a record of a piece stands -/

/-- A record of some pieces carries one of them or turns to its page. -/
inductive OfPiece (page : UInt16) (done : List Segment) (piece : Segment) (left : List Segment)
    (front : List Record) (record : Record) (back : List Record) : Prop
  | carries (hrecord : record = .data piece.base.toUInt16 piece.bytes)
    (hfront : front = pagedRecords page done
      ++ turnRecords (pageAfter page done) (upperHalf piece.base))
  | turns (hother : upperHalf piece.base ≠ pageAfter page done)
    (hrecord : record = .extendedLinear (upperHalf piece.base))
    (hfront : front = pagedRecords page done)
    (hback : back = .data piece.base.toUInt16 piece.bytes
      :: pagedRecords (upperHalf piece.base) left)

theorem OfPiece.behind {page : UInt16} {first piece : Segment} {done left : List Segment}
    {front back : List Record} {record : Record}
    (h : OfPiece (upperHalf first.base) done piece left front record back) :
    OfPiece page (first :: done) piece left
      (turnRecords page (upperHalf first.base)
        ++ .data first.base.toUInt16 first.bytes :: front) record back := by
  cases h with
  | carries hrecord hfront =>
      refine .carries hrecord ?_
      rw [hfront, pagedRecords, pageAfter, List.append_assoc]
      rfl
  | turns hother hrecord hfront hback =>
      refine .turns hother hrecord ?_ hback
      rw [hfront, pagedRecords]

/-- Whichever record is picked, it is one of a piece. -/
theorem exists_ofPiece {page : UInt16} {pieces : List Segment} {front back : List Record}
    {record : Record} (h : pagedRecords page pieces = front ++ record :: back) :
    ∃ done piece left, pieces = done ++ piece :: left ∧
      OfPiece page done piece left front record back := by
  induction pieces generalizing page front with
  | nil => simp [pagedRecords] at h
  | cons piece rest ih =>
      rw [pagedRecords] at h
      rcases Pass.split_append h with ⟨middle, hturn⟩ | ⟨later, rfl, hdata⟩
      · by_cases hsame : upperHalf piece.base = page
        · simp [turnRecords, hsame] at hturn
        · rw [turnRecords, if_neg hsame] at h hturn
          rcases List.append_eq_singleton_iff.mp hturn.symm with ⟨rfl, hhead⟩ | ⟨-, hnil⟩
          · obtain ⟨rfl, -⟩ := List.cons.inj hhead
            exact ⟨[], piece, rest, rfl, .turns hsame rfl rfl (List.cons.inj h).2.symm⟩
          · cases hnil
      · rcases List.cons_eq_append_iff.mp hdata with ⟨rfl, hhead⟩ | ⟨later, rfl, hrest⟩
        · obtain ⟨rfl, -⟩ := List.cons.inj hhead
          exact ⟨[], piece, rest, rfl, .carries rfl (List.append_nil _)⟩
        · obtain ⟨done, other, left, rfl, hof⟩ := ih hrest
          exact ⟨piece :: done, other, left, rfl, hof.behind⟩

/-! ### Laid out by pages -/

/-- What is asked of a record ahead of the last, with all that stands before and behind it. -/
inductive WellPaged (limit : Nat) (front : List Record) (record : Record) (back : List Record) :
    Prop
  /-- It carries something, and that lies on the page in force. -/
  | data (hkind : record.kind = .data)
    (hlength : 1 ≤ record.payload.length ∧ record.payload.length ≤ limit)
    (hforce : pageSize ∣ (baseAfter front).value)
    (honPage : record.address.toNat + record.payload.length ≤ pageSize)
  /-- It turns from the page in force to another one, for the data record right behind it. -/
  | turn (hkind : record.kind = .extendedLinear)
    (hforce : pageSize ∣ (baseAfter (front ++ [record])).value)
    (hother : baseAfter (front ++ [record]) ≠ baseAfter front)
    (hnext : ∃ next later, back = next :: later ∧ next.kind = .data)

theorem toNat_toUInt16 (address : UInt32) : address.toUInt16.toNat = address.toNat % pageSize := by
  rw [UInt32.toNat_toUInt16, pageSize]

/-- **Wherever they stand, the records of pieces are laid out by pages.** -/
theorem InForce.wellPaged {limit : Nat} {page : UInt16} {earlier : List Record}
    (h : InForce page earlier) {pieces : List Segment}
    (hfits : ∀ piece ∈ pieces, piece.FitsRecord limit) {front back : List Record}
    {record : Record} (hsplit : Image.pagedRecords page pieces = front ++ record :: back) :
    WellPaged limit (earlier ++ front) record back := by
  obtain ⟨done, piece, left, rfl, hof⟩ := exists_ofPiece hsplit
  obtain ⟨hdone, hrest⟩ := List.forall_mem_append.mp hfits
  obtain ⟨hpiece, -⟩ := List.forall_mem_cons.mp hrest
  obtain ⟨-, hforce⟩ := h.pagedRecords fun other hother => (hdone other hother).solid
  obtain ⟨-, hturned⟩ := hforce.turn (upperHalf piece.base)
  rw [List.append_assoc] at hturned
  cases hof with
  | carries hrecord hfront =>
      subst hrecord hfront
      refine .data rfl ⟨List.length_pos_iff.mpr hpiece.solid, hpiece.short⟩
        ⟨_, hturned.trans (Nat.mul_comm ..)⟩ ?_
      show piece.base.toUInt16.toNat + piece.bytes.length ≤ pageSize
      rw [toNat_toUInt16]
      exact hpiece.onPage
  | turns hother hrecord hfront hback =>
      subst hrecord hfront hback
      rw [turnRecords, if_neg hother, ← List.append_assoc] at hturned
      refine .turn rfl ⟨_, hturned.trans (Nat.mul_comm ..)⟩ (fun hsame => hother ?_)
        ⟨_, _, rfl, rfl⟩
      have hpages := hturned.symm.trans ((congrArg Base.value hsame).trans hforce)
      exact UInt16.toNat_inj.mp (Nat.eq_of_mul_eq_mul_right (by decide) hpages)

/-! ### The lines -/

theorem newline_not_mem_line (record : Record) : '\n' ∉ record.line :=
  fun hmem => absurd (record.isGraphic_line _ hmem) (by decide)

/--
**A written image is laid out by pages.**

The text is made of lines, each of them a record as it is read: data records and records that
turn to a page, and in the end the one that ends the image.  Every data record carries as many
bytes as are wanted, though one at least and 255 at most, but for the last ones of a segment and
of a page, and lies wholly on the page in force; before the first turn that is page zero.  A turn
stands right ahead of each data record that is on another page than the one in force, and nowhere
else.  In order, the data records put the bytes of the segments where the segments have them.
-/
theorem write_paged (wanted : Nat) {segments : List Segment}
    (hfits : ∀ segment ∈ segments, segment.Fits) :
    let limit := min (max wanted 1) 255
    ∃ cuts, List.Forall₂ (Segment.CutForRecords limit) segments cuts ∧
      let body := pagedRecords 0 cuts.flatten
      records wanted ⟨segments⟩ = body ++ [Record.endOfFile] ∧
      write wanted ⟨segments⟩
        = (body ++ [Record.endOfFile]).flatMap (fun record => record.line ++ ['\n']) ∧
      (∀ record ∈ body ++ [Record.endOfFile],
        '\n' ∉ record.line ∧ Record.parse record.line = .ok record) ∧
      (∀ front record back, body = front ++ record :: back →
        WellPaged limit front record back) ∧
      contents body = cuts.flatten := by
  intro limit
  obtain ⟨cuts, hbody, hcuts⟩ := exists_cuts_segmentRecords (.closest wanted) 0 hfits
  have heach := Segment.fitsRecord_of_cuts hcuts
  have hrecords : records wanted ⟨segments⟩ = pagedRecords 0 cuts.flatten ++ [Record.endOfFile] :=
    congrArg (· ++ [Record.endOfFile]) hbody
  refine ⟨cuts, hcuts, hrecords, ?_, ?_, ?_, ?_⟩
  · rw [write, hrecords]
  · intro record hmem
    refine ⟨newline_not_mem_line record, Record.parse_line ?_⟩
    rcases List.mem_append.mp hmem with hbefore | hlast
    · exact (goes_pagedRecords (RecordLength.closest wanted).lt_byteLimit 0 heach record
        hbefore).legible
    · rw [List.mem_singleton.mp hlast]
      exact Record.legible_endOfFile
  · intro front record back hsplit
    exact inForce_initial.wellPaged heach hsplit
  · exact (inForce_initial.pagedRecords fun piece hmem => (heach piece hmem).solid).1

/-- From page to page and back, and up to the last address, where no bytes at all are wanted in a
record; and a segment that one record cannot hold, where more are wanted than it can carry. -/
theorem write_paged_straddling :
    let segments := straddling ++ [⟨0xFFFFFFFF, [0x06]⟩]
    let front : List Record :=
      [.data 0xFFFE [0x01], .data 0xFFFF [0x02], .extendedLinear 1, .data 0 [0x03],
        .data 1 [0x04]]
    let back : List Record := [.data 0 [0x05], .extendedLinear 0xFFFF, .data 0xFFFF [0x06]]
    let long : List Segment := [⟨0x100, List.replicate 256 0x55⟩]
    (∀ segment ∈ segments, segment.Fits) ∧
      records 0 ⟨segments⟩ = front ++ .extendedLinear 0 :: back ++ [.endOfFile] ∧
      WellPaged 1 front (.extendedLinear 0) back ∧
      (∃ cuts, List.Forall₂ (Segment.CutForRecords 1) segments cuts ∧
        cuts.flatten = [⟨0xFFFE, [0x01]⟩, ⟨0xFFFF, [0x02]⟩, ⟨0x10000, [0x03]⟩,
          ⟨0x10001, [0x04]⟩, ⟨0, [0x05]⟩, ⟨0xFFFFFFFF, [0x06]⟩]) ∧
      (∀ segment ∈ long, segment.Fits) ∧
      ∃ cuts, List.Forall₂ (Segment.CutForRecords 255) long cuts ∧
        cuts.flatten = [⟨0x100, List.replicate 255 0x55⟩, ⟨0x1FF, [0x55]⟩] := by
  intro segments front back long
  have hfits : ∀ segment ∈ segments, segment.Fits := by decide
  have hlong : ∀ segment ∈ long, segment.Fits := by decide +kernel
  have hrecords : records 0 ⟨segments⟩ = front ++ .extendedLinear 0 :: back ++ [.endOfFile] := by
    decide +kernel
  obtain ⟨cuts, hcuts, hbody, -, -, hpaged, hcontents⟩ := write_paged 0 hfits
  obtain ⟨pieces, hpieces, hlines, -, -, -, hplaced⟩ := write_paged 300 hlong
  have hfront := List.append_cancel_right (hbody.symm.trans hrecords)
  have hlast := List.append_cancel_right (hlines.symm.trans (show records 300 ⟨long⟩
    = [.data 0x100 (List.replicate 255 0x55), .data 0x1FF [0x55]] ++ [.endOfFile] by
      decide +kernel))
  refine ⟨hfits, hrecords, hpaged front _ back hfront, ⟨cuts, hcuts, ?_⟩, hlong, pieces, hpieces,
    ?_⟩
  · rw [← hcontents, hfront]
    decide +kernel
  · rw [← hplaced, hlast]
    decide +kernel

end UsbBoot.Image
