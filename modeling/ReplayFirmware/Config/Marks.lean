import ReplayFirmware.Config.UpdateBits

/-! Which fields the lines of a file set. `malloc` leaves the mask of an item and the value of an option
    as they are; a line may give them, or compare with them. Read off the lines alone: whether the
    current item and option have a name, a mask and a value, and whether all those before them got
    theirs. -/

namespace Config

/-! ### Marks -/

/-- The current item: whether it has a name, and its mask when it was set. -/
structure ItemMarks where
  named : Bool
  mask : Option UInt32
deriving DecidableEq, Repr

/-- The current option: whether it has a name and a value. -/
structure OptionMarks where
  named : Bool
  valued : Bool
deriving DecidableEq, Repr

structure Marks where
  item : Option ItemMarks
  option : Option OptionMarks
  /-- All the items and options before have their masks and values. -/
  whole : Bool
deriving DecidableEq, Repr

/-- The current item is left behind. -/
def Marks.leaveItem (a : Marks) : Marks :=
  { a with item := none, whole := a.whole && a.item.all (·.mask.isSome) }

/-- The current option is left behind. -/
def Marks.leaveOption (a : Marks) : Marks :=
  { a with option := none, whole := a.whole && a.option.all (·.valued) }

def Marks.newItem (a : Marks) : Marks := { a.leaveItem with item := some ⟨false, none⟩ }

def Marks.newOption (a : Marks) : Marks := { a.leaveOption with option := some ⟨false, false⟩ }

/-- All items and options have their masks and values. -/
def Marks.settled (a : Marks) : Bool := a.leaveItem.leaveOption.whole

/-! ### Lines -/

/-- What a line does: it succeeds, it is refused, it follows a null pointer, or it compares its value
    with a mask that is not set. -/
inductive Fate where
  | done (a : Marks)
  | refused (a : Marks)
  | null
  | unset
deriving DecidableEq, Repr

/-- The first character is not the end of the string. -/
def named (name : List UInt8) : Bool := name.getD 0 0 ≠ 0

/-- The mask that an `ITEM` gives. -/
def maskOf : List Value → Option UInt32
  | [_, v1, _] => some v1.intval
  | [_, v1, v2, _] => some (shiftLeft v1.intval v2.intval)
  | _ => none

/-- An `ITEM` with four values is static or dynamic. -/
def kindFits : List Value → Bool
  | [_, _, _, v3] => isDynamic v3.strval || isStatic v3.strval
  | _ => true

def markTitle (vs : List Value) (a : Marks) : Fate :=
  match vs with
  | [_] => .done a.newItem
  | _ => .refused a

/-- The item that an `ITEM` is about: the current one while it has no name. -/
def Marks.takeItem (a : Marks) (it : ItemMarks) : Marks × Option UInt32 :=
  if it.named then (a.newItem, none) else (a, it.mask)

def markItem (vs : List Value) (a : Marks) : Fate :=
  if 2 ≤ vs.length ∧ vs.length ≤ 4 then
    match a.item with
    | none => .null
    | some it =>
      let name := (vs.map Value.strval).headD []
      let taken := a.takeItem it
      let a := { taken.1 with item := some ⟨named name, (maskOf vs).or taken.2⟩ }
      if kindFits vs then .done a.newOption else .refused a
  else .refused a

/-- The comparison of a value with the mask of its item. -/
def markValue (kind : OptionKind) (v0 v1 : Value) (mask : Option UInt32) (a : Marks) : Fate :=
  let named := { a with option := some ⟨named v0.strval, true⟩ }
  if kind = .flags ∨ v1.intval = 0 then .done named
  else
    match mask with
    | none => .unset
    | some mask => if mask &&& v1.intval ≠ v1.intval then .refused a else .done named

def markOption (vs : List Value) (a : Marks) : Fate :=
  match vs with
  | v0 :: v1 :: rest =>
    if rest.length ≤ 1 then
      match a.item, a.option with
      | some it, some o =>
        let a := { (if o.named then a.newOption else a) with option := some ⟨false, true⟩ }
        if optionKind vs = .bad then .refused a else markValue (optionKind vs) v0 v1 it.mask a
      | _, _ => .null
    else .refused a
  | _ => .refused a

def markRom (spi : Bool) (vs : List Value) (upload : Upload) (a : Marks) : Fate :=
  if ¬ spi then .refused a
  else
    match vs with
    | v0 :: v1 :: rest =>
      if 2 < rest.length ∨ v0.strval.length = 0 then .refused a
      else
        match upload with
        | .failed => .refused a
        | .done _ => .done { a.newItem.newOption with
            item := some ⟨true, some v1.intval⟩, option := some ⟨named v0.strval, false⟩ }
    | _ => .refused a

def Directive.mark (a : Marks) : Directive → Fate
  | .title vs => markTitle vs a
  | .item vs => markItem vs a
  | .option vs => markOption vs a
  | .rom spi vs upload => markRom spi vs upload a
  | .other fails _ _ => if fails then .refused a else .done a

/-- No line compares with a mask that is not set, and behind the last line that is read every item has
    its mask and every option its value. -/
def Settled : List Directive → Marks → Bool
  | [], a => a.settled
  | d :: ds, a =>
    match d.mark a with
    | .done a => Settled ds a
    | .refused a => a.settled
    | .null => true
    | .unset => false

/-- Before the first line. -/
def noMarks : Marks := ⟨none, none, true⟩

end Config
