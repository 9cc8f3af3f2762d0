/-
Pairs as they are typed, and as they are shown.

What is typed falls into two parts at its first colon, and each part has to be a number by
itself, apart from blanks.  A second colon is left in the second part, where no number has one.
A pair may be typed in many ways; each of those in which one is shown is among them, so a pair can
be copied from a message, from a list or from the log and typed back.

The members that tell a pair in an object are one part each, and have to be put together first.
-/
import UsbBoot.Proofs.Job.Loading
import UsbBoot.Proofs.Text.Numeral

namespace UsbBoot.Device

/-! ### What is typed -/

/-- A number of a pair: in front of it, the mark of its base may stand. -/
inductive IsPart : List Char → Nat → Prop
  | plain {digits : List Char} {value : Nat} (hnumber : Text.IsNumber 16 digits value) :
    IsPart digits value
  | marked {mark : Char} {digits : List Char} {value : Nat} (hmark : mark = 'x' ∨ mark = 'X')
    (hnumber : Text.IsNumber 16 digits value) : IsPart ('0' :: mark :: digits) value

/-- The parts of a text: what stands before its first colon and what stands behind it, without
the blanks around them. -/
def HasParts (text : String) (vendor product : List Char) : Prop :=
  ∃ front back, Text.TrimsTo text.toList (front ++ ':' :: back) ∧ ':' ∉ front ∧
    Text.TrimsTo front vendor ∧ Text.TrimsTo back product

/-- A text that is a pair of numbers. -/
def IsPair (text : String) (vendor product : Nat) : Prop :=
  ∃ front back, HasParts text front back ∧ IsPart front vendor ∧ IsPart back product

/-- Parts that cannot be numbers of a pair. -/
inductive IsUnfit : List Char → Prop
  | empty : IsUnfit []
  | colon {part : List Char} (hcolon : ':' ∈ part) : IsUnfit part
  /-- The sign stands before the mark, not behind it. -/
  | signed {mark : Char} (digits : List Char) (hmark : mark = 'x' ∨ mark = 'X') :
    IsUnfit ('+' :: '0' :: mark :: digits)
  | large {part : List Char} {value : Nat} (hpart : IsPart part value) (hlarge : 0xFFFF < value) :
    IsUnfit part

/-! ### Parts -/

theorem isPart_marked {mark : Char} {digits : List Char} {value : Nat}
    (hmark : mark = 'x' ∨ mark = 'X') :
    IsPart ('0' :: mark :: digits) value ↔ Text.IsNumber 16 digits value := by
  constructor
  · intro h
    cases h with
    | plain hnumber =>
        exact absurd (List.mem_cons_of_mem _ List.mem_cons_self) (hnumber.not_mem_mark hmark)
    | marked _ hnumber => exact hnumber
  · exact .marked hmark

/-- A part is a number once the mark of its base is taken away. -/
theorem isPart_iff {part : List Char} {value : Nat} :
    IsPart part value ↔ Text.IsNumber 16 (Id.dropBaseMark part) value := by
  fun_cases Id.dropBaseMark part with
  | case1 digits => exact isPart_marked (Or.inl rfl)
  | case2 digits => exact isPart_marked (Or.inr rfl)
  | case3 _ hsmall hcapital =>
      constructor
      · intro h
        cases h with
        | plain hnumber => exact hnumber
        | marked hmark =>
            rcases hmark with rfl | rfl
            · exact absurd rfl (hsmall _)
            · exact absurd rfl (hcapital _)
      · exact .plain

theorem IsPart.unique {part : List Char} {value other : Nat} (h : IsPart part value)
    (hother : IsPart part other) : value = other :=
  (isPart_iff.mp h).unique (by decide) (isPart_iff.mp hother)

/-- Whatever an unfit part denotes is too large. -/
theorem IsUnfit.large_of_isPart {part : List Char} (h : IsUnfit part) {value : Nat}
    (hpart : IsPart part value) : 0xFFFF < value := by
  cases h with
  | empty =>
      cases hpart with
      | plain hnumber => exact absurd rfl hnumber.ne_nil
  | colon hcolon =>
      cases hpart with
      | plain hnumber => exact absurd hcolon (hnumber.not_mem (by decide) rfl)
      | marked hmark hnumber =>
          rcases hmark with rfl | rfl <;>
            simp [hnumber.not_mem (by decide) (show Text.digitOf? 16 ':' = none from rfl)] at hcolon
  | signed digits hmark =>
      cases hpart with
      | plain hnumber =>
          exact absurd (List.mem_cons_of_mem _ (List.mem_cons_of_mem _ List.mem_cons_self))
            (hnumber.not_mem_mark hmark)
  | large hlarge habove =>
      rwa [hpart.unique hlarge]

theorem readPart_eq_ok_iff {text : List Char} {number : UInt16} :
    Id.readPart text = .ok number ↔ ∃ part, Text.TrimsTo text part ∧ IsPart part number.toNat := by
  have hread := Text.readNumber_eq_ok_iff (by decide : 16 ≤ 16) shortLimit
    (Id.dropBaseMark (Text.trim text))
  simp only [← isPart_iff] at hread
  rw [Id.readPart]
  constructor
  · intro h
    split at h
    · cases h
    · rename_i value hvalue
      obtain rfl := Except.ok.inj h
      obtain ⟨hpart, hbound⟩ := (hread value).mp hvalue
      have hsame : value.toUInt16.toNat = value := by
        rw [Nat.toUInt16_eq, UInt16.toNat_ofNat']
        exact Nat.mod_eq_of_lt hbound
      exact ⟨_, Text.trimsTo_trim text, hsame.symm ▸ hpart⟩
  · rintro ⟨part, htrim, hpart⟩
    obtain rfl := Text.trim_eq_iff.mpr htrim
    rw [(hread number.toNat).mpr ⟨hpart, number.toNat_lt⟩]
    exact congrArg Except.ok UInt16.ofNat_toNat

/-! ### Pairs -/

/-- A text without a colon is no pair. -/
theorem read_of_noColon {text : String} (h : ':' ∉ Text.trim text.toList) :
    Id.read text = .error (.noColon text) := by
  have hnone : (Text.trim text.toList).dropWhile (· != ':') = [] := by
    rw [List.dropWhile_eq_nil_iff]
    intro c hmem
    simpa using ne_of_mem_of_not_mem hmem h
  rw [Id.read, hnone]

/-- A text is parted at its first colon. -/
theorem parted_at_colon {front : List Char} (hfirst : ':' ∉ front) (back : List Char) :
    (front ++ ':' :: back).takeWhile (· != ':') = front ∧
      (front ++ ':' :: back).dropWhile (· != ':') = ':' :: back := by
  have hbefore : ∀ c ∈ front, (c != ':') = true := by
    intro c hmem
    simpa using ne_of_mem_of_not_mem hmem hfirst
  rw [List.takeWhile_append_of_pos hbefore, List.dropWhile_append_of_pos hbefore]
  exact ⟨List.append_nil front, rfl⟩

/-- A text with a colon is read in its two parts. -/
theorem read_of_colon {text : String} {front back : List Char}
    (hcore : Text.trim text.toList = front ++ ':' :: back) (hfirst : ':' ∉ front) :
    Id.read text = do
      let vendor ← Id.readPart front
      let product ← Id.readPart back
      return ⟨vendor, product⟩ := by
  obtain ⟨htake, hdrop⟩ := parted_at_colon hfirst back
  rw [Id.read, hcore, hdrop, htake]

theorem HasParts.unique {text : String} {vendor product vendor' product' : List Char}
    (h : HasParts text vendor product) (hother : HasParts text vendor' product') :
    vendor = vendor' ∧ product = product' := by
  obtain ⟨front, back, hcore, hfirst, hleft, hright⟩ := h
  obtain ⟨front', back', hcore', hfirst', hleft', hright'⟩ := hother
  have hsame := (Text.trim_eq_iff.mpr hcore).symm.trans (Text.trim_eq_iff.mpr hcore')
  obtain ⟨htake, hdrop⟩ := parted_at_colon hfirst back
  obtain ⟨htake', hdrop'⟩ := parted_at_colon hfirst' back'
  obtain rfl : front = front' := by rw [← htake, hsame, htake']
  obtain ⟨-, rfl⟩ : ':' = ':' ∧ back = back' := List.cons.inj (by rw [← hdrop, hsame, hdrop'])
  exact ⟨(Text.trim_eq_iff.mpr hleft).symm.trans (Text.trim_eq_iff.mpr hleft'),
    (Text.trim_eq_iff.mpr hright).symm.trans (Text.trim_eq_iff.mpr hright')⟩

theorem read_eq_ok_iff {text : String} {id : Id} :
    Id.read text = .ok id ↔ IsPair text id.vendor.toNat id.product.toNat := by
  constructor
  · intro h
    by_cases hcolon : ':' ∈ Text.trim text.toList
    · obtain ⟨front, back, hcore, hfirst⟩ := List.eq_append_cons_of_mem hcolon
      rw [read_of_colon hcore hfirst] at h
      obtain ⟨vendor, hvendor, h⟩ := bind_eq_ok_iff.mp h
      obtain ⟨product, hproduct, h⟩ := bind_eq_ok_iff.mp h
      obtain rfl := Except.ok.inj h
      obtain ⟨left, hleft, hisLeft⟩ := readPart_eq_ok_iff.mp hvendor
      obtain ⟨right, hright, hisRight⟩ := readPart_eq_ok_iff.mp hproduct
      exact ⟨left, right, ⟨front, back, Text.trim_eq_iff.mp hcore, hfirst, hleft, hright⟩,
        hisLeft, hisRight⟩
    · rw [read_of_noColon hcolon] at h
      cases h
  · rintro ⟨left, right, ⟨front, back, hcore, hfirst, hleft, hright⟩, hisLeft, hisRight⟩
    rw [read_of_colon (Text.trim_eq_iff.mpr hcore) hfirst,
      readPart_eq_ok_iff.mpr ⟨left, hleft, hisLeft⟩,
      readPart_eq_ok_iff.mpr ⟨right, hright, hisRight⟩]
    rfl

/-- Where a part is unfit, there is no pair. -/
theorem read_of_isUnfit {text : String} {front back : List Char} (hparts : HasParts text front back)
    (hunfit : IsUnfit front ∨ IsUnfit back) : ∃ fault, Id.read text = .error fault := by
  cases hread : Id.read text with
  | error fault => exact ⟨fault, rfl⟩
  | ok id =>
      obtain ⟨left, right, hother, hleft, hright⟩ := read_eq_ok_iff.mp hread
      obtain ⟨rfl, rfl⟩ := hparts.unique hother
      have hvendor := id.vendor.toNat_lt
      have hproduct := id.product.toNat_lt
      rcases hunfit with h | h
      · have := h.large_of_isPart hleft
        omega
      · have := h.large_of_isPart hright
        omega

/-! ### What is shown -/

section

variable {digit : Nat → Char}
  (hdigit : ∀ value, value < 16 → Record.IsDigit (digit value) value)
include hdigit

/-- Two numbers with four digits each are read back. -/
theorem read_hexDigits (id : Id) :
    Id.read (String.ofList (Text.hexDigits digit 4 id.vendor.toNat) ++ ":" ++
      String.ofList (Text.hexDigits digit 4 id.product.toNat)) = .ok id := by
  have hvendor : id.vendor.toNat < 16 ^ 4 := id.vendor.toNat_lt
  have hproduct : id.product.toNat < 16 ^ 4 := id.product.toNat_lt
  have hfront := Text.isGraphic_hexDigits hdigit hvendor
  have hback := Text.isGraphic_hexDigits hdigit hproduct
  have hleft := Text.isNumber_hexDigits hdigit (by decide) hvendor
  have hright := Text.isNumber_hexDigits hdigit (by decide) hproduct
  refine read_eq_ok_iff.mpr ⟨_, _, ⟨_, _, ?_, ?_, Text.trimsTo_of_isGraphic hfront,
    Text.trimsTo_of_isGraphic hback⟩, .plain hleft, .plain hright⟩
  · simp only [String.toList_append, String.toList_ofList, List.append_assoc]
    refine Text.trimsTo_of_isGraphic (List.forall_mem_append.mpr ⟨hfront, ?_⟩)
    exact List.forall_mem_cons.mpr ⟨by decide, hback⟩
  · exact hleft.not_mem (by decide) rfl

end

theorem read_lower (id : Id) : Id.read id.lower = .ok id := by
  rw [Id.lower, Text.lowerHex, Text.lowerHex, Text.max_hexLength_of_short id.vendor.toNat_lt,
    Text.max_hexLength_of_short id.product.toNat_lt]
  exact read_hexDigits (fun value h => ⟨h, Or.inr rfl⟩) id

theorem read_upper (id : Id) : Id.read id.upper = .ok id := by
  rw [Id.upper, Text.upperHex, Text.upperHex, Text.max_hexLength_of_short id.vendor.toNat_lt,
    Text.max_hexLength_of_short id.product.toNat_lt]
  exact read_hexDigits (fun value h => ⟨h, Or.inl rfl⟩) id

/-- Texts in which a pair is shown. -/
inductive Shows : String → Id → Prop
  /-- One of the devices that fit a request alike. -/
  | ambiguous (family : Chip.Family) {found : List Known} {known : Known} (hmem : known ∈ found) :
    Shows (ambiguityDetail family found) known.id
  /-- A device in a list. -/
  | listed (table : Table) (device : Info) : Shows (line table device) device.id
  /-- The device that is taken from a list. -/
  | chosen {table : Table} {devices : List Info} {text : String} {device : Resolved}
    (hchoice : resolve table anyKnown devices = .ok device) (hsome : text ≠ "")
    (hline : text ∈ choiceLines table devices) : Shows text device.id
  /-- The device that could not be opened. -/
  | unopened {ready : Job.Ready} {bus : Usb.Bus} {quiet : Bool} {failure : Failure}
    {report : Report} (hopen : (bus.open ready.device.id).result = .error failure)
    (hreport : (ready.perform bus quiet).result = .error report) :
    Shows report.message ready.device.id

/-- A text stands somewhere in another one. -/
def IsWithin (part text : String) : Prop :=
  ∃ front back, text = front ++ part ++ back

theorem isWithin_append (front part back : String) : IsWithin part (front ++ part ++ back) :=
  ⟨front, back, rfl⟩

theorem IsWithin.trans {part middle text : String} (h : IsWithin part middle)
    (hmiddle : IsWithin middle text) : IsWithin part text := by
  obtain ⟨front, back, rfl⟩ := h
  obtain ⟨before, after, rfl⟩ := hmiddle
  exact ⟨before ++ front, back ++ after, by simp only [String.append_assoc]⟩

theorem isWithin_intercalate {part : String} {parts : List String} (hmem : part ∈ parts)
    (separator : String) : IsWithin part (separator.intercalate parts) := by
  induction parts with
  | nil => cases hmem
  | cons first rest ih =>
      by_cases hlast : rest = []
      · subst hlast
        rw [List.mem_singleton.mp hmem, String.intercalate_singleton]
        exact ⟨"", "", by simp⟩
      · rw [String.intercalate_cons_of_ne_nil hlast]
        rcases List.mem_cons.mp hmem with rfl | hrest
        · exact ⟨"", separator ++ separator.intercalate rest, by simp [String.append_assoc]⟩
        · exact (ih hrest).trans ⟨first ++ separator, "", by simp⟩

/-- **Wherever a pair is shown, it stands there with four digits for each number.** -/
theorem Shows.isWithin {text : String} {id : Id} (h : Shows text id) : IsWithin id.lower text := by
  cases h with
  | @ambiguous family found known hmem =>
      have hlisted := isWithin_intercalate (List.mem_map_of_mem (f := (·.id.lower)) hmem) ", "
      refine hlisted.trans ⟨toString found.length ++ " attached " ++ family.display
        ++ " devices match: ", "", ?_⟩
      simp [ambiguityDetail]
  | listed table device =>
      have hplace := isWithin_append ("Bus " ++ Text.decimal 3 device.bus.toNat ++ " Device "
        ++ Text.decimal 3 device.address.toNat ++ ": ID ") device.id.lower ""
      rw [line]
      cases table.lookup device.id with
      | none => exact hplace.trans ⟨"", "", by simp⟩
      | some known =>
          refine hplace.trans ⟨"", " [" ++ known.family.display ++ "] " ++ known.name, ?_⟩
          simp [String.append_assoc]
  | @chosen table devices text device hchoice hsome hline =>
      simp only [choiceLines, hchoice, List.mem_cons, List.not_mem_nil, or_false] at hline
      rw [hline.resolve_left hsome]
      refine ⟨"→ Auto-detected: ", " (" ++ device.family.display ++ ")", ?_⟩
      simp [String.append_assoc]
  | @unopened ready bus quiet failure report hopen hreport =>
      have hfailed : (ready.perform bus quiet).result = .error ((Report.ofFailure failure).within
          ("Failed to open device " ++ ready.device.id.lower)) := by
        rw [Job.Ready.result_perform, Stage.mapError, hopen]
        rfl
      obtain rfl := Except.error.inj (hreport.symm.trans hfailed)
      have hcontext : IsWithin ready.device.id.lower
          ("Failed to open device " ++ ready.device.id.lower) := ⟨_, "", (String.append_empty).symm⟩
      exact hcontext.trans (isWithin_intercalate List.mem_cons_self ": ")

/-- The members of an object that tell a pair, put together with a colon, are read back. -/
theorem read_object (table : Table) (device : Info) :
    ∃ members vendor product, object table device = .object members ∧
      members.lookup "vid" = some (.string vendor) ∧
      members.lookup "pid" = some (.string product) ∧
      Id.read (vendor ++ ":" ++ product) = .ok device.id :=
  ⟨_, _, _, rfl, rfl, rfl, read_lower device.id⟩

/--
**Which texts are pairs, and that pairs can be typed as they are shown.**

A text is read as a pair exactly if, without the blanks around it, it has a colon and what stands
before the first colon and behind it are the two numbers, each without the blanks around it.  It is
no pair if one of these parts is empty, has a colon, has its sign before the mark of the base, or
is too large.  Each pair is read from the letters in which it is shown, small ones or capital
ones; where it is shown it stands in that form, and in an object each number has a member.
-/
theorem read_pair :
    (∀ text id, Id.read text = .ok id ↔ IsPair text id.vendor.toNat id.product.toNat) ∧
    (∀ text front back, HasParts text front back → IsUnfit front ∨ IsUnfit back →
      ∃ fault, Id.read text = .error fault) ∧
    (∀ id : Id, Id.read id.lower = .ok id ∧ Id.read id.upper = .ok id) ∧
    (∀ text id, Shows text id → IsWithin id.lower text) ∧
    ∀ table device, ∃ members vendor product, object table device = .object members ∧
      members.lookup "vid" = some (.string vendor) ∧
      members.lookup "pid" = some (.string product) ∧
      Id.read (vendor ++ ":" ++ product) = .ok device.id :=
  ⟨fun _ _ => read_eq_ok_iff, fun _ _ _ => read_of_isUnfit,
    fun id => ⟨read_lower id, read_upper id⟩, fun _ _ => Shows.isWithin, read_object⟩

/-- Blanks, marks, signs and zeros in every place; a sign in the wrong one; a pair in a list. -/
theorem read_pair_signed :
    let device : Info := ⟨1, 4, ⟨0x04B4, 0x8613⟩, 0xA000⟩
    IsPair "\u3000 0X+00004b4\t: +8613\n" 0x04B4 0x8613 ∧
      IsUnfit "+0x04b4".toList ∧ (∃ fault, Id.read "+0x04b4:8613" = .error fault) ∧
      Shows (line .builtin device) device.id ∧ IsWithin "04b4:8613" (line .builtin device) := by
  intro device
  have hread : Id.read "\u3000 0X+00004b4\t: +8613\n" = .ok device.id := by decide +kernel
  have hparts : HasParts "+0x04b4:8613" "+0x04b4".toList "8613".toList :=
    ⟨"+0x04b4".toList, "8613".toList, Text.trim_eq_iff.mp (by decide +kernel), by decide,
      Text.trim_eq_iff.mp (by decide +kernel), Text.trim_eq_iff.mp (by decide +kernel)⟩
  have hunfit : IsUnfit "+0x04b4".toList := .signed "04b4".toList (Or.inl rfl)
  have hshown : Shows (line .builtin device) device.id := .listed .builtin device
  have hlower : device.id.lower = "04b4:8613" := by decide +kernel
  obtain ⟨hpair, hfaulty, -, hwithin, -⟩ := read_pair
  exact ⟨(hpair _ device.id).mp hread, hunfit, hfaulty _ _ _ hparts (Or.inl hunfit), hshown,
    hlower ▸ hwithin _ _ hshown⟩

end UsbBoot.Device
