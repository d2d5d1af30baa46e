import Mathlib.Data.List.Nodup
import WindowsGaming.Library.ByteStrings

/- The names of USB devices, looked up in the list of ids that the system provides. One loop over
   the lines finds first the vendor, then the product in the block of lines below it. -/
namespace UsbIds
open ByteStrings

abbrev Names := String × Option String

section Lookup
variable {ε : Type} (vendorId productId : UInt16)

/-- The loop, with the vendor once it has been found. Its result is `none` where it panics; an
    error is one of reading a line. -/
def resolveLines : Option String → List (Except ε String) → Option (Except ε (Option Names))
  | _, [] => some (.ok none)
  | _, .error e :: _ => some (.error e)
  | vendor, .ok line :: lines =>
    let cs := line.toList
    if cs.head? = some '#' then resolveLines vendor lines
    else
      match vendor with
      | some vendor =>
        if cs.head? = some '\t' ∧ 5 < byteLen cs then
          (slice cs 1 5).bind fun digits =>
            if fromStrRadix16 digits = some productId then
              (sliceFrom cs 5).map fun name => .ok (some (vendor, some (String.ofList (trim name))))
            else resolveLines (some vendor) lines
        -- vendor is over, product not found
        else some (.ok (some (vendor, none)))
      | none =>
        if 4 < byteLen cs then
          (sliceTo cs 4).bind fun digits =>
            if fromStrRadix16 digits = some vendorId then
              (sliceFrom cs 4).bind fun name => resolveLines (some (String.ofList (trim name))) lines
            else resolveLines none lines
        else resolveLines none lines

def hwidResolveUsb (file : Except ε (List (Except ε String))) : Option (Except ε (Option Names)) :=
  match file with
  | .error e => some (.error e)
  | .ok lines => resolveLines vendorId productId none lines

def namesFromId (file : Except ε (List (Except ε String))) : Option (Option Names) :=
  (hwidResolveUsb vendorId productId file).map fun res => res.toOption.join

end Lookup

structure Hex (n : Nat) where
  digits : List Char
  width : digits.length = n
  hex : AllHex digits

def Hex.value {n : Nat} (id : Hex n) : UInt16 := UInt16.ofNat (hexNumber id.digits)

structure Device where
  id : Hex 4
  name : String

inductive Entry where
  | comment (text : String)
  | device (device : Device)
  | interface (id : Hex 2) (name : String)

structure Vendor where
  id : Hex 4
  name : String
  body : List Entry

def Entry.device? : Entry → Option Device
  | .device d => some d
  | _ => none

def Vendor.devices (v : Vendor) : List Device := v.body.filterMap Entry.device?

/-- A file in the format of `usb.ids`. -/
structure File where
  comments : List String
  vendors : List Vendor
  distinctVendors : (vendors.map fun v => v.id.value).Nodup
  distinctDevices : ∀ v ∈ vendors, (v.devices.map fun d => d.id.value).Nodup

def line (front : List Char) (text : String) : String := String.ofList (front ++ text.toList)

def vendorFront (id : Hex 4) : List Char := id.digits ++ [' ', ' ']

def deviceFront (id : Hex 4) : List Char := '\t' :: vendorFront id

def interfaceFront (id : Hex 2) : List Char := '\t' :: '\t' :: (id.digits ++ [' ', ' '])

def Entry.line : Entry → String
  | .comment text => UsbIds.line ['#'] text
  | .device d => UsbIds.line (deviceFront d.id) d.name
  | .interface id name => UsbIds.line (interfaceFront id) name

def Vendor.lines (v : Vendor) : List String :=
  UsbIds.line (vendorFront v.id) v.name :: v.body.map Entry.line

def File.lines (f : File) : List String :=
  f.comments.map (line ['#']) ++ f.vendors.flatMap Vendor.lines

def shown (name : String) : String := String.ofList (trim name.toList)

/-- The lookup finds what the file lists, and that it does not list the vendor only if that is so. -/
structure Complete {ε : Type} (f : File) (vendorId productId : UInt16)
    (result : Option (Except ε (Option Names))) : Prop where
  returns : result.isSome = true
  listed : ∀ v ∈ f.vendors, v.id.value = vendorId → ∀ d ∈ v.devices, d.id.value = productId →
    result = some (.ok (some (shown v.name, some (shown d.name))))
  unlisted : ∀ v ∈ f.vendors, v.id.value = vendorId → (∀ d ∈ v.devices, d.id.value ≠ productId) →
    result = some (.ok (some (shown v.name, none)))
  unknown : result = some (.ok none) ↔ ∀ v ∈ f.vendors, v.id.value ≠ vendorId

/-- The vendor at the end of the file is another one, or it lists the product. -/
def endFits (f : File) (vendorId productId : UInt16) : Prop :=
  ∀ v, f.vendors.getLast? = some v → v.id.value = vendorId → ∃ d ∈ v.devices, d.id.value = productId

section Fronts

theorem toList_line (front : List Char) (text : String) :
    (line front text).toList = front ++ text.toList := String.toList_ofList

theorem ascii_blanks : Ascii [' ', ' '] :=
  List.forall_mem_cons.mpr ⟨rfl, List.forall_mem_cons.mpr ⟨rfl, nofun⟩⟩

theorem ascii_vendorFront (id : Hex 4) : Ascii (vendorFront id) :=
  List.forall_mem_append.mpr ⟨ascii_of_allHex id.hex, ascii_blanks⟩

theorem ascii_deviceFront (id : Hex 4) : Ascii (deviceFront id) :=
  List.forall_mem_cons.mpr ⟨by decide, ascii_vendorFront id⟩

theorem ascii_interfaceFront (id : Hex 2) : Ascii (interfaceFront id) :=
  List.forall_mem_cons.mpr ⟨by decide, List.forall_mem_cons.mpr ⟨by decide,
    List.forall_mem_append.mpr ⟨ascii_of_allHex id.hex, ascii_blanks⟩⟩⟩

theorem length_vendorFront (id : Hex 4) : (vendorFront id).length = 6 := by
  simp [vendorFront, id.width]

theorem take_vendorFront (id : Hex 4) : (vendorFront id).take 4 = id.digits :=
  List.take_left' id.width

theorem drop_vendorFront (id : Hex 4) : (vendorFront id).drop 4 = [' ', ' '] :=
  List.drop_left' id.width

theorem read_id (id : Hex 4) : fromStrRadix16 id.digits = some id.value := by
  refine fromStrRadix16_hex ?_ id.width.le id.hex
  intro empty
  have width := id.width
  rw [empty] at width
  cases width

theorem trim_blanks (name : String) : String.ofList (trim ([' ', ' '] ++ name.toList)) = shown name := by
  have white : ∀ c ∈ [' ', ' '], isWhitespace c = true :=
    List.forall_mem_cons.mpr ⟨rfl, List.forall_mem_cons.mpr ⟨rfl, nofun⟩⟩
  rw [trim_append_white white]
  rfl

theorem head_vendorFront (id : Hex 4) (text : List Char) :
    (vendorFront id ++ text).head? ≠ some '#' ∧ (vendorFront id ++ text).head? ≠ some '\t' := by
  have width := id.width
  have hex := id.hex
  unfold vendorFront
  cases digits : id.digits with
  | nil => simp [digits] at width
  | cons c digits =>
    rw [digits] at hex
    have digit := hex c List.mem_cons_self
    constructor
    · intro same
      cases Option.some.inj same
      cases digit
    · intro same
      cases Option.some.inj same
      cases digit

end Fronts

section Lines
variable {ε : Type} (vendorId productId : UInt16) (lines : List (Except ε String))

theorem resolve_comment (vendor : Option String) (text : String) :
    resolveLines vendorId productId vendor (.ok (line ['#'] text) :: lines) =
      resolveLines vendorId productId vendor lines := by
  cases vendor <;> rw [resolveLines, toList_line] <;> rfl

theorem resolve_searching {front : List Char} (ascii : Ascii front) (long : 4 < front.length)
    (text : String) (plain : (front ++ text.toList).head? ≠ some '#') :
    resolveLines vendorId productId none (.ok (line front text) :: lines) =
      if fromStrRadix16 (front.take 4) = some vendorId then
        resolveLines vendorId productId (some (String.ofList (trim (front.drop 4 ++ text.toList)))) lines
      else resolveLines vendorId productId none lines := by
  have size : 4 < byteLen (front ++ text.toList) := by
    rw [byteLen_append, byteLen_ascii ascii]
    omega
  rw [resolveLines, toList_line]
  simp only [if_neg plain, if_pos size, sliceTo_front ascii long.le, sliceFrom_front ascii long.le,
    Option.bind_some]

theorem resolve_below {front : List Char} (ascii : Ascii ('\t' :: front)) (long : 4 < front.length)
    (vendor text : String) :
    resolveLines vendorId productId (some vendor) (.ok (line ('\t' :: front) text) :: lines) =
      if fromStrRadix16 (front.take 4) = some productId then
        some (.ok (some (vendor, some (String.ofList (trim (front.drop 4 ++ text.toList))))))
      else resolveLines vendorId productId (some vendor) lines := by
  have size : 5 < byteLen ('\t' :: front ++ text.toList) := by
    rw [byteLen_append, byteLen_ascii ascii, List.length_cons]
    omega
  have inside : 5 ≤ ('\t' :: front).length := by
    rw [List.length_cons]
    omega
  have tab : ('\t' :: front ++ text.toList).head? = some '\t' := rfl
  rw [resolveLines, toList_line]
  simp only [tab, size, slice_front ascii (by decide : 1 ≤ 5) inside, sliceFrom_front ascii inside,
    Option.bind_some, Option.map_some]
  rfl

theorem resolve_over (vendor : String) (id : Hex 4) (text : String) :
    resolveLines vendorId productId (some vendor) (.ok (line (vendorFront id) text) :: lines) =
      some (.ok (some (vendor, none))) := by
  obtain ⟨plain, no_tab⟩ := head_vendorFront id text.toList
  rw [resolveLines, toList_line]
  simp only [if_neg plain]
  rw [if_neg fun indented => no_tab indented.1]

theorem resolve_vendor (id : Hex 4) (name : String) :
    resolveLines vendorId productId none (.ok (line (vendorFront id) name) :: lines) =
      if id.value = vendorId then resolveLines vendorId productId (some (shown name)) lines
      else resolveLines vendorId productId none lines := by
  rw [resolve_searching vendorId productId lines (ascii_vendorFront id)
    (by rw [length_vendorFront]; omega) name (head_vendorFront id name.toList).1,
    take_vendorFront, drop_vendorFront, read_id, trim_blanks]
  simp only [Option.some.injEq]

theorem resolve_device (vendor : String) (d : Device) :
    resolveLines vendorId productId (some vendor) (.ok (Entry.device d).line :: lines) =
      if d.id.value = productId then some (.ok (some (vendor, some (shown d.name))))
      else resolveLines vendorId productId (some vendor) lines := by
  have below := resolve_below vendorId productId lines (ascii_deviceFront d.id)
    (by rw [length_vendorFront]; omega) vendor d.name
  rw [take_vendorFront, drop_vendorFront, read_id, trim_blanks] at below
  simp only [Option.some.injEq] at below
  exact below

theorem resolve_interface (vendor : String) (id : Hex 2) (name : String) :
    resolveLines vendorId productId (some vendor) (.ok (Entry.interface id name).line :: lines) =
      resolveLines vendorId productId (some vendor) lines := by
  have long : 4 < ('\t' :: (id.digits ++ [' ', ' '])).length := by simp [id.width]
  have below := resolve_below vendorId productId lines (ascii_interfaceFront id) long vendor name
  have tab : fromStrRadix16 (('\t' :: (id.digits ++ [' ', ' '])).take 4) = none := fromStrRadix16_tab _
  rw [tab, if_neg (by simp)] at below
  exact below

theorem resolve_indented {front : List Char} (ascii : Ascii ('\t' :: front)) (long : 3 < front.length)
    (text : String) :
    resolveLines vendorId productId none (.ok (line ('\t' :: front) text) :: lines) =
      resolveLines vendorId productId none lines := by
  have tab : fromStrRadix16 (('\t' :: front).take 4) = none := fromStrRadix16_tab _
  rw [resolve_searching vendorId productId lines ascii (by rw [List.length_cons]; omega) text
    (by simp), tab, if_neg (by simp)]

end Lines

section Blocks
variable {ε : Type} (vendorId productId : UInt16)

def readable (lines : List String) : List (Except ε String) := lines.map Except.ok

theorem resolve_comments (comments : List String) (vendor : Option String)
    (lines : List (Except ε String)) :
    resolveLines vendorId productId vendor (readable (comments.map (line ['#'])) ++ lines) =
      resolveLines vendorId productId vendor lines := by
  induction comments with
  | nil => rfl
  | cons text comments ih => exact (resolve_comment vendorId productId _ vendor text).trans ih

theorem resolve_body_passed (body : List Entry) (lines : List (Except ε String)) :
    resolveLines vendorId productId none (readable (body.map Entry.line) ++ lines) =
      resolveLines vendorId productId none lines := by
  induction body with
  | nil => rfl
  | cons e body ih =>
    have entry : resolveLines vendorId productId none (.ok e.line ::
        (readable (body.map Entry.line) ++ lines)) =
        resolveLines vendorId productId none (readable (body.map Entry.line) ++ lines) := by
      cases e with
      | comment text => exact resolve_comment vendorId productId _ none text
      | device d =>
        exact resolve_indented vendorId productId _ (ascii_deviceFront d.id)
          (by rw [length_vendorFront]; omega) d.name
      | interface id name =>
        exact resolve_indented vendorId productId _ (ascii_interfaceFront id) (by simp [id.width]) name
    exact entry.trans ih

theorem resolve_body_own (vendor : String) (body : List Entry) (lines : List (Except ε String)) :
    resolveLines vendorId productId (some vendor) (readable (body.map Entry.line) ++ lines) =
      match (body.filterMap Entry.device?).find? fun d => d.id.value = productId with
      | some d => some (.ok (some (vendor, some (shown d.name))))
      | none => resolveLines vendorId productId (some vendor) lines := by
  induction body with
  | nil => rfl
  | cons e body ih =>
    cases e with
    | comment text => exact (resolve_comment vendorId productId _ (some vendor) text).trans ih
    | interface id name => exact (resolve_interface vendorId productId _ vendor id name).trans ih
    | device d =>
      refine (resolve_device vendorId productId _ vendor d).trans ?_
      rw [List.filterMap_cons]
      simp only [Entry.device?, List.find?_cons]
      by_cases own : d.id.value = productId
      · simp [own]
      · simp only [own, if_false, decide_false]
        exact ih

theorem resolve_others (vendors : List Vendor) (others : ∀ v ∈ vendors, v.id.value ≠ vendorId)
    (lines : List (Except ε String)) :
    resolveLines vendorId productId none (readable (vendors.flatMap Vendor.lines) ++ lines) =
      resolveLines vendorId productId none lines := by
  induction vendors with
  | nil => rfl
  | cons v vendors ih =>
    have other := others v List.mem_cons_self
    have rest := ih fun w member => others w (List.mem_cons_of_mem v member)
    rw [List.flatMap_cons, readable, List.map_append, List.append_assoc, Vendor.lines, List.map_cons,
      List.cons_append, resolve_vendor, if_neg other]
    exact (resolve_body_passed vendorId productId v.body _).trans rest

/-- What the lookup gives for a vendor that is listed: at the end of the file the vendor is lost
    with the product. -/
theorem resolve_listed (comments : List String) (before : List Vendor) (v : Vendor)
    (after : List Vendor) (others : ∀ w ∈ before, w.id.value ≠ vendorId)
    (own : v.id.value = vendorId) :
    resolveLines vendorId productId none
        (readable (comments.map (line ['#']) ++ (before ++ v :: after).flatMap Vendor.lines) :
          List (Except ε String)) =
      match v.devices.find? fun d => d.id.value = productId with
      | some d => some (.ok (some (shown v.name, some (shown d.name))))
      | none => if after = [] then some (.ok none) else some (.ok (some (shown v.name, none))) := by
  rw [readable, List.map_append, List.flatMap_append, List.map_append, List.flatMap_cons,
    List.map_append]
  refine (resolve_comments vendorId productId comments none _).trans ?_
  refine (resolve_others vendorId productId before others _).trans ?_
  rw [Vendor.lines, List.map_cons, List.cons_append, resolve_vendor, if_pos own]
  refine (resolve_body_own vendorId productId (shown v.name) v.body _).trans ?_
  unfold Vendor.devices
  cases (v.body.filterMap Entry.device?).find? fun d => d.id.value = productId with
  | some d => rfl
  | none =>
    cases after with
    | nil => rfl
    | cons w after =>
      rw [List.flatMap_cons, Vendor.lines, List.cons_append, List.map_cons]
      exact resolve_over vendorId productId _ (shown v.name) w.id w.name

end Blocks

section Files
variable {ε : Type} {f : File} {vendorId productId : UInt16} {v w : Vendor}

theorem vendor_unique (here : v ∈ f.vendors) (there : w ∈ f.vendors) (same : v.id.value = w.id.value) :
    v = w := List.inj_on_of_nodup_map f.distinctVendors here there same

theorem names_iff_unlisted (member : v ∈ f.vendors) (own : v.id.value = vendorId) (names : Names) :
    (some (.ok (some names)) : Option (Except ε (Option Names))) = some (.ok none) ↔
      ∀ v ∈ f.vendors, v.id.value ≠ vendorId := by
  constructor
  · intro same
    cases same
  · intro unlisted
    exact absurd own (unlisted v member)

theorem complete_unknown (unlisted : ∀ v ∈ f.vendors, v.id.value ≠ vendorId) :
    Complete f vendorId productId (some (.ok none) : Option (Except ε (Option Names))) where
  returns := rfl
  listed v member own := absurd own (unlisted v member)
  unlisted v member own := absurd own (unlisted v member)
  unknown := ⟨fun _ => unlisted, fun _ => rfl⟩

theorem complete_vendor (member : v ∈ f.vendors) (own : v.id.value = vendorId)
    (missing : ∀ d ∈ v.devices, d.id.value ≠ productId) :
    Complete f vendorId productId
      (some (.ok (some (shown v.name, none))) : Option (Except ε (Option Names))) where
  returns := rfl
  listed w there own' d device product := by
    obtain rfl := vendor_unique member there (own.trans own'.symm)
    exact absurd product (missing d device)
  unlisted w there own' _ := by
    obtain rfl := vendor_unique member there (own.trans own'.symm)
    rfl
  unknown := names_iff_unlisted member own _

theorem complete_product (member : v ∈ f.vendors) (own : v.id.value = vendorId) {d : Device}
    (device : d ∈ v.devices) (product : d.id.value = productId) :
    Complete f vendorId productId
      (some (.ok (some (shown v.name, some (shown d.name)))) : Option (Except ε (Option Names))) where
  returns := rfl
  listed w there own' e device' product' := by
    obtain rfl := vendor_unique member there (own.trans own'.symm)
    obtain rfl := List.inj_on_of_nodup_map (f.distinctDevices v member) device device'
      (product.trans product'.symm)
    rfl
  unlisted w there own' missing := by
    obtain rfl := vendor_unique member there (own.trans own'.symm)
    exact absurd product (missing d device)
  unknown := names_iff_unlisted member own _

theorem resolve_unlisted (unlisted : ∀ v ∈ f.vendors, v.id.value ≠ vendorId) :
    hwidResolveUsb vendorId productId (.ok (readable f.lines) : Except ε (List (Except ε String))) =
      some (.ok none) := by
  have others := @resolve_others ε vendorId productId f.vendors unlisted []
  rw [List.append_nil] at others
  rw [hwidResolveUsb, File.lines, readable, List.map_append]
  exact (resolve_comments vendorId productId f.comments none _).trans others

theorem endFits_iff {before after : List Vendor} (cut : f.vendors = before ++ v :: after)
    (own : v.id.value = vendorId) :
    endFits f vendorId productId ↔ after ≠ [] ∨ ∃ d ∈ v.devices, d.id.value = productId := by
  have member : v ∈ f.vendors := by simp [cut]
  constructor
  · intro fits
    by_contra neither
    rw [not_or, not_not] at neither
    obtain ⟨rfl, missing⟩ := neither
    exact missing (fits v (by rw [cut, List.getLast?_concat]) own)
  · rintro (more | listed) last is_last same
    · -- a vendor behind it has another id
      obtain ⟨front, w, rfl⟩ := List.eq_nil_or_concat after |>.resolve_left more
      have ids := f.distinctVendors
      rw [cut] at is_last ids
      have behind : last = w := by
        rw [List.concat_eq_append, ← List.cons_append, ← List.append_assoc, List.getLast?_concat] at is_last
        exact (Option.some.inj is_last).symm
      subst behind
      rw [List.map_append, List.map_cons, List.nodup_append, List.nodup_cons] at ids
      exact absurd (List.mem_map.mpr ⟨last, by simp, same.trans own.symm⟩) ids.2.1.1
    · obtain rfl := vendor_unique (List.mem_of_getLast? is_last) member (same.trans own.symm)
      exact listed

theorem resolve_member (member : v ∈ f.vendors) (own : v.id.value = vendorId) :
    ∃ before after, f.vendors = before ++ v :: after ∧
      hwidResolveUsb vendorId productId (.ok (readable f.lines) : Except ε (List (Except ε String))) =
        match v.devices.find? fun d => d.id.value = productId with
        | some d => some (.ok (some (shown v.name, some (shown d.name))))
        | none => if after = [] then some (.ok none) else some (.ok (some (shown v.name, none))) := by
  obtain ⟨before, after, cut⟩ := List.append_of_mem member
  have ids := f.distinctVendors
  rw [cut, List.map_append, List.map_cons, List.nodup_append] at ids
  have others : ∀ w ∈ before, w.id.value ≠ vendorId := by
    intro w earlier same
    exact ids.2.2 _ (List.mem_map_of_mem earlier) _ List.mem_cons_self (same.trans own.symm)
  refine ⟨before, after, cut, ?_⟩
  have result := @resolve_listed ε vendorId productId f.comments before v after others own
  rw [← cut] at result
  exact result

theorem complete_of_endFits (fits : endFits f vendorId productId) :
    Complete f vendorId productId
      (hwidResolveUsb vendorId productId (.ok (readable f.lines) : Except ε (List (Except ε String)))) := by
  by_cases listed : ∃ v ∈ f.vendors, v.id.value = vendorId
  · obtain ⟨v, member, own⟩ := listed
    obtain ⟨before, after, cut, result⟩ := @resolve_member ε f vendorId productId v member own
    rw [result]
    cases found : v.devices.find? fun d => d.id.value = productId with
    | some d =>
      have product : d.id.value = productId := by simpa using List.find?_some found
      exact complete_product member own (List.mem_of_find?_eq_some found) product
    | none =>
      have missing : ∀ d ∈ v.devices, d.id.value ≠ productId := by
        simpa using List.find?_eq_none.mp found
      have more : after ≠ [] := by
        refine ((endFits_iff cut own).mp fits).resolve_right ?_
        rintro ⟨d, device, product⟩
        exact missing d device product
      simp only [if_neg more]
      exact complete_vendor member own missing
  · have unlisted : ∀ v ∈ f.vendors, v.id.value ≠ vendorId :=
      fun v member own => listed ⟨v, member, own⟩
    rw [resolve_unlisted unlisted]
    exact complete_unknown unlisted

theorem endFits_of_complete (complete : Complete f vendorId productId
    (hwidResolveUsb vendorId productId (.ok (readable f.lines) : Except ε (List (Except ε String))))) :
    endFits f vendorId productId := by
  intro last is_last own
  obtain ⟨before, after, cut, result⟩ :=
    @resolve_member ε f vendorId productId last (List.mem_of_getLast? is_last) own
  refine (endFits_iff cut own).mpr ?_ last is_last own
  by_contra neither
  rw [not_or, not_not] at neither
  obtain ⟨at_end, unlisted⟩ := neither
  have missing : ∀ d ∈ last.devices, d.id.value ≠ productId :=
    fun d device product => unlisted ⟨d, device, product⟩
  have none_found : (last.devices.find? fun d => d.id.value = productId) = none := by
    simpa using missing
  have vendor_only := complete.unlisted last (List.mem_of_getLast? is_last) own missing
  rw [result, none_found] at vendor_only
  simp only [if_pos at_end] at vendor_only
  cases vendor_only

/-- Where the lookup is complete, a device is shown without names only if its vendor is unknown. -/
theorem namesFromId_none_iff (fits : endFits f vendorId productId) :
    namesFromId vendorId productId (.ok (readable f.lines) : Except ε (List (Except ε String))) =
      some none ↔ ∀ v ∈ f.vendors, v.id.value ≠ vendorId := by
  have complete := @complete_of_endFits ε f vendorId productId fits
  rw [← complete.unknown, namesFromId]
  constructor
  · intro nameless
    by_contra known
    rw [complete.unknown] at known
    simp only [not_forall, not_not] at known
    obtain ⟨v, member, own⟩ := known
    by_cases listed : ∃ d ∈ v.devices, d.id.value = productId
    · obtain ⟨d, device, product⟩ := listed
      rw [complete.listed v member own d device product] at nameless
      cases nameless
    · rw [complete.unlisted v member own fun d device product => listed ⟨d, device, product⟩] at nameless
      cases nameless
  · intro unknown
    rw [unknown]
    rfl

end Files

/-- The lookup is complete on a file exactly when the file does not end in the block of the vendor
    without the product in it. -/
theorem lookup_complete_iff (ε : Type) (f : File) (vendorId productId : UInt16) :
    Complete f vendorId productId
        (hwidResolveUsb vendorId productId (.ok (readable f.lines) : Except ε (List (Except ε String)))) ↔
      endFits f vendorId productId :=
  ⟨endFits_of_complete, complete_of_endFits⟩

def onlyVendor : File where
  comments := ["List of USB ID's"]
  vendors := [⟨⟨['0', '4', '6', 'd'], rfl, by decide +kernel⟩, "Logitech, Inc.",
    [.device ⟨⟨['c', '0', '1', '6'], rfl, by decide +kernel⟩, "Optical Wheel Mouse"⟩]⟩]
  distinctVendors := by simp
  distinctDevices := by simp [Vendor.devices, Entry.device?]

/-- The last vendor of the file is not found for a product that is not listed. -/
theorem last_vendor_lost :
    ¬ Complete onlyVendor 0x046D 0xC017
      (hwidResolveUsb 0x046D 0xC017
        (.ok (readable onlyVendor.lines) : Except Empty (List (Except Empty String)))) := by
  intro complete
  have vendor_only := complete.unlisted _ List.mem_cons_self (by decide +kernel) (by decide +kernel)
  exact absurd vendor_only (by decide +kernel)

end UsbIds
