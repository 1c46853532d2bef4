import ReplayFirmware.Config.MenuList

/-! The menu that every core has: `CFG_add_default` makes the "Replay Menu", with the targets of the
    INI file in it, and links the last menu of ROMs right in front of it. -/

namespace Config

/-! ### The items -/

/-- A target, as the strings that are read through its pointers. -/
structure Target where
  name : List UInt8
  dir : Option (List UInt8)
  file : List UInt8
deriving DecidableEq, Repr

/-- `strcpy` into an array of `n` characters; there is no outcome when it writes behind the array. -/
def strcpyTo (n : ℕ) (dst : Chars) (src : List UInt8) : Option Chars :=
  if src.length < n then some (strcpy dst src) else none

/-- An item of its own with an option, and without a mask. -/
def addItem (malloc : Malloc) (name action : List UInt8) (s : Status) : Option Status :=
  (allocItem malloc s).bind fun s =>
    match s.menu_item_act with
    | none => none
    | some i =>
      (strcpyTo maxItemString (s.items i).item_name name).bind fun item_name =>
        let it := s.items i
        allocOption malloc (s.setItem i { it with
          item_name := item_name, option_list := none, selected_option := none, conf_dynamic := 0
          conf_mask := 0, action_name := strcpy it.action_name action })

/-- The current option gets its name. -/
def nameOption (name : List UInt8) (s : Status) : Option Status :=
  match s.item_opt_act with
  | none => none
  | some o => (strcpyTo maxOptionString (s.options o).option_name name).map fun option_name =>
    s.setOption o { s.options o with option_name := option_name }

/-- The current option loses its link to the option in front of it. -/
def cutOption (s : Status) : Option Status :=
  match s.item_opt_act with
  | none => none
  | some o => some (s.setOption o { s.options o with last := none })

/-- The item of a target: its file is the first option, its directory the second. -/
def addTarget (malloc : Malloc) (t : Target) (s : Status) : Option Status :=
  (addItem malloc t.name (chars "iniload") s).bind fun s =>
    (nameOption t.file s).bind fun s =>
      match t.dir with
      | none => some s
      | some dir => ((allocOption malloc s).bind cutOption).bind (nameOption dir)

def addTargets (malloc : Malloc) : List Target → Status → Option Status
  | [], s => some s
  | t :: ts, s => (addTarget malloc t s).bind (addTargets malloc ts)

/-- The menu and its items. -/
def addReplayMenu (malloc : Malloc) (targets : List Target) (s : Status) : Option Status :=
  (allocMenu malloc (chars "Replay Menu") s).bind fun s =>
    (addItem malloc (chars "Load Target") (chars "iniselect") s).bind fun s =>
      (addItem malloc (chars "Reset Target") (chars "reset") s).bind fun s =>
        (addItem malloc (chars "Reboot Board") (chars "reboot") s).bind fun s =>
          (addItem malloc (chars "SDCard over USB") (chars "mountmsc") s).bind
            (addTargets malloc targets)

/-! ### The links -/

/-- What a pointer to a link reads. -/
def Status.link (s : Status) (k : Dll.Link ℕ) : Ptr := k.get s.menu_top fun m => (s.menus m).next

def Status.setNext (s : Status) (m : ℕ) (p : Ptr) : Status :=
  s.setMenu m { s.menus m with next := p }

def Status.setLast (s : Status) (m : ℕ) (p : Ptr) : Status :=
  s.setMenu m { s.menus m with last := p }

def Status.setLink (s : Status) (k : Dll.Link ℕ) (p : Ptr) : Status :=
  match k with
  | .top => { s with menu_top := p }
  | .next m => s.setNext m p

def Status.titled (s : Status) (title : String) (m : ℕ) : Bool :=
  decide ((s.menus m).menu_title.Is (chars title))

/-- The links to the last menu of ROMs and to the "Replay Menu", from a link on. `fuel` is above the
    number of menus. -/
def findLinks (s : Status) : ℕ → Dll.Link ℕ → Option (Dll.Link ℕ) → Option (Dll.Link ℕ) →
    Option (Option (Dll.Link ℕ) × Option (Dll.Link ℕ))
  | 0, _, _, _ => none
  | fuel + 1, menu, rom_menu, replay_menu =>
    match s.link menu with
    | none => some (rom_menu, replay_menu)
    | some m => findLinks s fuel (.next m) (if s.titled "ROMs" m then some menu else rom_menu)
        (if s.titled "Replay Menu" m then some menu else replay_menu)

/-- The menu that one link points to, in front of the one that the other points to. -/
def moveMenu (rom_menu replay_menu : Dll.Link ℕ) (s : Status) : Option Status :=
  match s.link rom_menu with
  | none => none
  | some menu =>
    -- unlink
    let s := s.setLink rom_menu (s.menus menu).next
    match (s.menus menu).next with
    | none => none
    | some next =>
      let s := s.setLast next (s.menus menu).last
      -- relink
      let s := s.setNext menu (s.link replay_menu)
      let s := s.setLink replay_menu (some menu)
      match (s.menus menu).next with
      | none => none
      | some next =>
        let s := s.setLast menu (s.menus next).last
        match (s.menus menu).next with
        | none => none
        | some next => some (s.setLast next (some menu))

def relink (s : Status) : Option Status :=
  match findLinks s (s.blocks + 1) .top none none with
  | none => none
  | some (some rom_menu, some replay_menu) => moveMenu rom_menu replay_menu s
  | some _ => some s

/-- `CFG_add_default` -/
def addDefault (malloc : Malloc) (targets : List Target) (s : Status) : Option Status :=
  (addReplayMenu malloc targets s).bind relink

end Config
