/-
# The checker of system descriptions

`tools/check_system.py`: a system description names memory regions,
protection domains and channels, and the checker accepts the one authority
graph of its profile. The profiles of the signed images are checked in two
phases: `admin_test_base` removes the elements that such an image has beyond
the terminal's, gives two images their terminal names, and leaves the rest to
the checks of the terminal.

A description is an element tree (`Lib/Element.lean`); reading the file is
left to the parser. A check that fails raises `ValueError` with a text. Of
`int` the digits beyond ASCII that the interpreter knows are an argument, and
the limit on the number of digits is left out; with it, less is accepted.

Key definitions: `pyInt`, `checkDomain`, `checkChannel`, `checkBase`,
`adminTestBase`, `validate`.
-/
import Tcs.Lib.Element

namespace Tcs
namespace Topology

open Xml

/-! ### Numbers -/

section

variable (decimal : Char → Option ℕ)

/-- The value of a digit: of ASCII, or of another one that is known. -/
def digitValue (c : Char) : Option ℕ :=
  if '0' ≤ c ∧ c ≤ '9' then some (c.toNat - '0'.toNat) else decimal c

/-- The digits behind a digit; an underscore may stand between two digits. -/
def intTail (value : ℕ) : List Char → Option ℕ
  | [] => some value
  | '_' :: c :: cs => (digitValue decimal c).bind fun n => intTail (10 * value + n) cs
  | '_' :: [] => none
  | c :: cs => (digitValue decimal c).bind fun n => intTail (10 * value + n) cs

/-- A number without a sign. -/
def intDigits : List Char → Option ℕ
  | [] => none
  | c :: cs => (digitValue decimal c).bind fun n => intTail decimal n cs

/-- `int` of a text. -/
def pyInt (text : String) : Option ℤ :=
  match strip text with
  | '+' :: cs => (intDigits decimal cs).map fun n => (n : ℤ)
  | '-' :: cs => (intDigits decimal cs).map fun n => -(n : ℤ)
  | cs => (intDigits decimal cs).map fun n => (n : ℤ)

end

/-! ### Checks -/

section

variable {α : Type*}

/-- `require`. -/
def require (condition : Bool) (message : String) (rest : Except String α) : Except String α :=
  if condition then rest else .error message

/-- `element.attrib[name]`. -/
def value (e : Element) (name : String) : String := (e.get name).getD ""

/-- `attributes`. -/
def attributes (e : Element) (required optional : List String) (rest : Except String α) :
    Except String α :=
  let keys := e.attrib.map Prod.fst
  require (required.all fun k => k ∈ keys) ("missing " ++ e.tag ++ " attribute") <|
  require (keys.all fun k => k ∈ required ∨ k ∈ optional) ("unexpected " ++ e.tag ++ " attribute")
    rest

/-- `int(element.attrib[name])`, for what is done with it. -/
def readInt (decimal : Char → Option ℕ) (e : Element) (name : String) (rest : ℤ → Except String α) :
    Except String α :=
  match pyInt decimal (value e name) with
  | none => .error "invalid literal for int() with base 10"
  | some n => rest n

end

/-- A channel's place at a domain: the domain and the number. -/
abbrev Slot := String × String

/-- A call: the caller's slot and the callee's. -/
abbrev Edge := Slot × Slot

/-- `DOMAINS`. -/
def seedDomains : List (String × ℤ) :=
  [("console", 10), ("client", 20), ("storage", 30), ("policy", 40), ("audit", 50)]

/-- `EDGES`. -/
def seedEdges : List Edge :=
  [(("console", "0"), ("policy", "0")), (("console", "1"), ("client", "0")),
    (("client", "1"), ("storage", "0")), (("storage", "1"), ("policy", "1")),
    (("policy", "2"), ("audit", "0")), (("console", "2"), ("audit", "1"))]

/-- `TERMINAL_DOMAINS`. -/
def terminalDomains : List (String × ℤ) :=
  [("terminal", 10), ("client", 20), ("storage", 30), ("policy", 40), ("audit", 50), ("serial", 60)]

/-- `TERMINAL_EDGES`. -/
def terminalEdges : List Edge :=
  [(("terminal", "0"), ("serial", "1")), (("terminal", "1"), ("client", "0")),
    (("client", "1"), ("storage", "0")), (("storage", "1"), ("policy", "1")),
    (("policy", "2"), ("audit", "0"))]

section

variable (decimal : Char → Option ℕ) (terminal : Bool)

/-- `domains`. -/
def domains : List (String × ℤ) := if terminal then terminalDomains else seedDomains

/-- `expected_edges`. -/
def expectedEdges : List Edge := if terminal then terminalEdges else seedEdges

/-- The attributes of the only region, of the map and of the interrupt of the serial domain. -/
def uartRegion : List (String × String) :=
  [("name", "uart"), ("size", "0x1000"), ("phys_addr", "0x09000000")]
def serialMap : List (String × String) :=
  [("mr", "uart"), ("vaddr", "0x4000000"), ("perms", "rw"), ("cached", "false"),
    ("setvar_vaddr", "uart_base_vaddr")]
def serialIrq : List (String × String) := [("irq", "33"), ("id", "0"), ("trigger", "level")]

/-- An element with a tag and exactly these attributes, and nothing in it. -/
def isLeaf (e : Element) (tag : String) (attrib : List (String × String)) : Bool :=
  e.tag = tag && e.children.isEmpty && dictEq e.attrib attrib

/-- The image of a domain. -/
def checkImage {α : Type*} (name : String) (image : Element) (rest : Except String α) :
    Except String α :=
  attributes image ["path"] [] <|
  require (image.children.isEmpty && value image "path" = name ++ ".elf") "unexpected program image"
    rest

/-- The children of a domain. -/
def checkParts (serial : Bool) (name : String) (parts : List Element) : Except String Unit :=
  let message := "seed forbids device maps, interrupts, children, and extra domain elements"
  match serial, parts with
  | false, [image] =>
    require (image.tag = "program_image") message <| checkImage name image (.ok ())
  | true, [image, mapping, irq] =>
    require (image.tag = "program_image") message <| checkImage name image <|
    require (isLeaf mapping "map" serialMap) "unexpected serial device mapping" <|
    require (isLeaf irq "irq" serialIrq) "unexpected serial IRQ" (.ok ())
  | _, _ => .error message

/-- One turn of the loop over the domains: the name and the priority. -/
def checkDomain (priorities : List (String × ℤ)) (pd : Element) : Except String (String × ℤ) :=
  attributes pd ["name", "priority", "budget", "period"] [] <|
  let name := value pd "name"
  let serial := terminal && name = "serial"
  require (dict (domains terminal) name ≠ none && dict priorities name = none)
    "unexpected or duplicate domain" <|
  readInt decimal pd "priority" fun priority =>
  require (dict (domains terminal) name = some priority) "unexpected profile priority" <|
  readInt decimal pd "budget" fun budget =>
  require (budget = if serial then 2000 else 10000) "unexpected seed scheduling budget" <|
  readInt decimal pd "period" fun period =>
  require (period = 10000) "unexpected seed scheduling budget" <|
  (checkParts serial name pd.children).bind fun _ => .ok (name, priority)

/-- The loop over the domains. -/
def checkDomains (priorities : List (String × ℤ)) : List Element → Except String (List (String × ℤ))
  | [] => .ok priorities
  | pd :: pds =>
    (checkDomain decimal terminal priorities pd).bind fun entry =>
      checkDomains (priorities ++ [entry]) pds

/-- The slot of an end. -/
def slotOf (e : Element) : Slot := (value e "pd", value e "id")

/-- One end of a channel: the slots that are taken. -/
def checkEnd (seen : List Slot) (e : Element) : Except String (List Slot) :=
  attributes e ["pd", "id", "notify"] ["pp"] <|
  require e.children.isEmpty "unexpected channel end child" <|
  require (dict (domains terminal) (value e "pd") ≠ none) "unknown channel domain" <|
  require ((e.get "pp").getD "false" ∈ ["true", "false"]) "invalid pp boolean" <|
  require (value e "notify" = if terminal && slotOf e = ("serial", "1") then "true" else "false")
    "unused notification authority forbidden" <|
  require (slotOf e ∉ seen) "channel slot reused" <|
  .ok (seen ++ [slotOf e])

/-- The end may call. -/
def calls (e : Element) : Bool := e.get "pp" = some "true"

/-- One turn of the loop over the channels: the slots that are taken, and the call. -/
def checkChannel (priorities : List (String × ℤ)) (seen : List Slot) (channel : Element) :
    Except String (List Slot × Edge) :=
  require channel.attrib.isEmpty "unexpected channel attribute" <|
  match channel.children with
  | [first, second] =>
    require (first.tag = "end" && second.tag = "end") "channel must have exactly two ends" <|
    (checkEnd terminal seen first).bind fun seen =>
    (checkEnd terminal seen second).bind fun seen =>
    require (([first, second].filter calls).length = 1) "seed permits one-way RPC only" <|
    let caller := if calls first then first else second
    let callee := if calls first then second else first
    require ((dict priorities (value caller "pd")).getD 0 < (dict priorities (value callee "pd")).getD 0)
      "RPC cycle or priority inversion" <|
    .ok (seen, (slotOf caller, slotOf callee))
  | _ => .error "channel must have exactly two ends"

/-- The loop over the channels. -/
def checkChannels (priorities : List (String × ℤ)) (seen : List Slot) (edges : List Edge) :
    List Element → Except String (List Edge)
  | [] => .ok edges
  | channel :: channels =>
    (checkChannel terminal priorities seen channel).bind fun out =>
      checkChannels priorities out.1 (edges ++ [out.2]) channels

/-- The tags of the root's children. -/
def allowed : List String :=
  ["protection_domain", "channel"] ++ if terminal then ["memory_region"] else []

/-- The regions of the terminal. -/
def checkRegions (regions : List Element) : Bool :=
  match regions with
  | [region] => region.children.isEmpty && dictEq region.attrib uartRegion
  | _ => false

/-- The slot that the interrupt takes. -/
def takenSlots : List Slot := if terminal then [("serial", "0")] else []

/-- The checks of `validate` from the root on. -/
def checkBase (root : Element) : Except String Unit :=
  require (root.tag = "system" && root.attrib.isEmpty) "unexpected system root" <|
  require (root.children.all fun c => c.tag ∈ allowed terminal)
    "seed forbids extra resources or top-level elements" <|
  require root.bare "unexpected text in system description" <|
  require (!terminal || checkRegions (root.findall "memory_region"))
    "terminal permits only the fixed UART page" <|
  (checkDomains decimal terminal [] (root.findall "protection_domain")).bind fun priorities =>
  require (dictEq priorities (domains terminal)) "missing profile domain" <|
  (checkChannels terminal priorities (takenSlots terminal) [] (root.findall "channel")).bind
    fun edges =>
  require (edges.all (· ∈ expectedEdges terminal) && (expectedEdges terminal).all (· ∈ edges))
    "unexpected authority path or channel identity" (.ok ())

end

/-! ### The signed images -/

/-- An element of a text without white space in it. -/
def plain (tag : String) (attrib : List (String × String)) (children : List Element) : Element :=
  .mk tag attrib "" "" children

/-- The image of a domain, as it is wanted. -/
def imageElement (path : String) : Element := plain "program_image" [("path", path)] []

/-- A domain, as it is wanted. -/
def wantedDomain (name priority image : String) (more : List Element) : Element :=
  plain "protection_domain"
    [("name", name), ("priority", priority), ("budget", "10000"), ("period", "10000")]
    (imageElement image :: more)

/-- A channel, as it is wanted. -/
def wantedChannel (caller source callee target : String) : Element :=
  plain "channel" []
    [plain "end" [("pd", caller), ("id", source), ("pp", "true"), ("notify", "false")] [],
      plain "end" [("pd", callee), ("id", target), ("notify", "false")] []]

/-- The attributes of the firmware's region and of its map. -/
def fwcfgRegion : List (String × String) :=
  [("name", "fwcfg"), ("size", "0x1000"), ("phys_addr", "0x09020000")]
def fwcfgMap : List (String × String) :=
  [("mr", "fwcfg"), ("vaddr", "0x5000000"), ("perms", "rw"), ("cached", "false"),
    ("setvar_vaddr", "fwcfg_base_vaddr")]

section

variable (interactive : Bool)

/-- `admin_image`, `boot_image`, `boot_name` and the image of the terminal. -/
def adminImage : String := if interactive then "launch_admin.elf" else "admin.elf"
def bootImage : String := if interactive then "launch_boot.elf" else "admin_boot.elf"
def bootName : String := if interactive then "bootstrap" else "test_boot"
def terminalImage : String := if interactive then "terminal.elf" else "admin_client.elf"

/-- What a signed image has beyond the terminal's, in the order in which it is taken. -/
def additions : List Element :=
  [plain "memory_region" fwcfgRegion [],
    wantedDomain "administrator" "25" (adminImage interactive) [],
    wantedDomain (bootName interactive) "70" (bootImage interactive) [plain "map" fwcfgMap []],
    wantedChannel "terminal" "2" "administrator" "0",
    wantedChannel "administrator" "2" "policy" "0",
    wantedChannel "administrator" "1" (bootName interactive) "0"] ++
  if interactive then [] else [wantedChannel "terminal" "3" "test_boot" "1"]

end

/-- An element that `take` is after. -/
def isWanted (wanted e : Element) : Bool := e.tag = wanted.tag && e.shapeEq wanted

/-- `take`, for one element after the other: what is left of the root's children. -/
def takeAll : List Element → List Element → Except String (List Element)
  | [], children => .ok children
  | wanted :: more, children =>
    require ((children.filter (isWanted wanted)).length = 1)
      ("unexpected admin-test " ++ wanted.tag) <|
    -- there is one such element, so this removes it
    takeAll more (children.filter fun e => !isWanted wanted e)

/-- A domain of this name. -/
def isDomain (name : String) (e : Element) : Bool :=
  e.tag = "protection_domain" && e.get "name" = some name

/-- The domain with its image renamed. -/
def withImage (name : String) (pd : Element) : Element :=
  pd.withChildren <| pd.children.map fun e =>
    if e.tag = "program_image" then e.set "path" (name ++ ".elf") else e

/-- One turn of the last loop of `admin_test_base`: the image of a domain is checked and renamed. -/
def renameImage (name image : String) (children : List Element) : Except String (List Element) :=
  match children.filter (isDomain name) with
  | [pd] =>
    match pd.findall "program_image" with
    | [found] =>
      require (found.shapeEq (imageElement image)) "unexpected admin-test image" <|
      .ok (children.map fun e => if isDomain name e then withImage name e else e)
    | _ => .error "unexpected admin-test image"
  | _ => .error "missing/duplicate admin-test domain"

/-- `admin_test_base`: the root as the checks of the terminal find it. -/
def adminTestBase (interactive : Bool) (root : Element) : Except String Element :=
  (takeAll (additions interactive) root.children).bind fun rest =>
  (renameImage "terminal" (terminalImage interactive) rest).bind fun rest =>
  (renameImage "policy" "admin_policy.elf" rest).bind fun rest => .ok (root.withChildren rest)

/-- The profiles. -/
inductive Profile
  | seed
  | terminal
  | adminTest
  | interactive
  deriving DecidableEq, Repr

/-- `validate`. -/
def validate (decimal : Char → Option ℕ) (profile : Profile) (root : Element) : Except String Unit :=
  match profile with
  | .seed => checkBase decimal false root
  | .terminal => checkBase decimal true root
  | .adminTest => (adminTestBase false root).bind (checkBase decimal true)
  | .interactive => (adminTestBase true root).bind (checkBase decimal true)

end Topology
end Tcs
