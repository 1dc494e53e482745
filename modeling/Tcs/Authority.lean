/-
# The authority graph that the checker accepts

What a description grants is read from its tree (`View`): the memory regions,
the domains with their numbers by value, and the channels as unordered pairs
of ends, all as multisets.

The checks are read off first: each loop accepts if every element is of its
kind and the names, or the calls, are the expected ones in some order
(`checkDomains_base`, `checkChannels_base`, `checkBase_ok`). An accepted domain
shows what its name says, an accepted channel what its call says, so the view
is known from names and calls (`view_base`). The two phases of the signed
images are in `SignedImages.lean`.

Key definitions: `View`, `view`, `DomainOk`, `ChannelOk`, `BaseOk`,
`grantsBase`.
Key theorems: `attributes_ok`, `checkDomains_base`, `checkChannels_base`,
`checkBase_ok`, `view_base`.
-/
import Tcs.Topology

namespace Tcs
namespace Topology

open Xml

/-! ### What a description grants -/

/-- The attributes of an element beyond some names. -/
def further (e : Element) (names : List String) : Set String := {k | k ∉ names ∧ e.get k ≠ none}

/-- A protection domain; its numbers are read by value. -/
structure Domain where
  name : Option String
  priority : Option ℤ
  budget : Option ℤ
  period : Option ℤ
  further : Set String
  images : Multiset Leaf
  maps : Multiset Leaf
  irqs : Multiset Leaf
  /-- How many other elements it has, such as domains. -/
  others : ℕ

/-- An end of a channel; an end without `pp` does not call. -/
structure End where
  pd : Option String
  id : Option String
  pp : String
  notify : Option String
  further : Set String
  children : ℕ

/-- A channel, with its ends in no order. -/
structure Channel where
  attrib : String → Option String
  ends : Multiset End
  others : ℕ

/-- What is granted below the root. -/
structure Grants where
  regions : Multiset Leaf
  domains : Multiset Domain
  channels : Multiset Channel
  /-- How many other elements there are. -/
  others : ℕ

/-- What a description grants, and the root. -/
structure View where
  tag : String
  attrib : String → Option String
  grants : Grants

section

variable (decimal : Char → Option ℕ)

/-- The elements of a list with a tag. -/
def tagged (tag : String) (es : List Element) : List Element := es.filter fun e => e.tag = tag

/-- An attribute as a number. -/
def number (e : Element) (name : String) : Option ℤ := (e.get name).bind (pyInt decimal)

def domainView (e : Element) : Domain where
  name := e.get "name"
  priority := number decimal e "priority"
  budget := number decimal e "budget"
  period := number decimal e "period"
  further := further e ["name", "priority", "budget", "period"]
  images := ((tagged "program_image" e.children).map Element.leaf : List Leaf)
  maps := ((tagged "map" e.children).map Element.leaf : List Leaf)
  irqs := ((tagged "irq" e.children).map Element.leaf : List Leaf)
  others := (e.children.filter fun c => c.tag ∉ ["program_image", "map", "irq"]).length

def endView (e : Element) : End where
  pd := e.get "pd"
  id := e.get "id"
  pp := (e.get "pp").getD "false"
  notify := e.get "notify"
  further := further e ["pd", "id", "pp", "notify"]
  children := e.children.length

def channelView (e : Element) : Channel where
  attrib := e.get
  ends := ((tagged "end" e.children).map endView : List End)
  others := (e.children.filter fun c => c.tag ≠ "end").length

/-- What elements grant. -/
def grants (es : List Element) : Grants where
  regions := ((tagged "memory_region" es).map Element.leaf : List Leaf)
  domains := ((tagged "protection_domain" es).map (domainView decimal) : List Domain)
  channels := ((tagged "channel" es).map channelView : List Channel)
  others :=
    (es.filter fun c => c.tag ∉ ["memory_region", "protection_domain", "channel"]).length

/-- What a description grants. -/
def view (root : Element) : View := ⟨root.tag, root.get, grants decimal root.children⟩

end

/-! ### Checks that pass -/

section

variable {α β : Type*}

theorem require_ok {c : Bool} {message : String} {rest : Except String α} {a : α} :
    require c message rest = .ok a ↔ c = true ∧ rest = .ok a := by
  unfold require
  cases c <;> simp

theorem bind_ok {x : Except String α} {f : α → Except String β} {b : β} :
    x.bind f = .ok b ↔ ∃ a, x = .ok a ∧ f a = .ok b := by
  cases x <;> simp [Except.bind]

theorem error_ne_ok {message : String} {a : α} :
    (Except.error message : Except String α) ≠ .ok a := by
  intro h
  cases h

/-- The names of the attributes: the required ones are there, and no others but optional ones. -/
def Keys (e : Element) (required optional : List String) : Prop :=
  (∀ k ∈ required, e.get k ≠ none) ∧ ∀ k, e.get k ≠ none → k ∈ required ∨ k ∈ optional

theorem attributes_ok {e : Element} {required optional : List String} {rest : Except String α} {a : α} :
    attributes e required optional rest = .ok a ↔ Keys e required optional ∧ rest = .ok a := by
  unfold attributes Keys
  simp only [require_ok, List.all_eq_true, decide_eq_true_iff, mem_keys_iff, and_assoc]
  rfl

theorem readInt_ok {decimal : Char → Option ℕ} {e : Element} {name : String}
    {rest : ℤ → Except String α} {a : α} :
    readInt decimal e name rest = .ok a ↔
      ∃ n, pyInt decimal (value e name) = some n ∧ rest n = .ok a := by
  unfold readInt
  cases pyInt decimal (value e name) <;> simp

theorem get_of_value {e : Element} {name : String} (h : e.get name ≠ none) :
    e.get name = some (value e name) := by
  unfold value
  cases hget : e.get name with
  | none => exact absurd hget h
  | some v => rfl

theorem number_of_value {decimal : Char → Option ℕ} {e : Element} {name : String}
    (h : e.get name ≠ none) : number decimal e name = pyInt decimal (value e name) := by
  unfold number
  rw [get_of_value h]
  rfl

theorem Keys.further {e : Element} {required optional names : List String}
    (h : Keys e required optional) (hn : ∀ k, k ∈ required ∨ k ∈ optional → k ∈ names) :
    further e names = ∅ := by
  apply Set.eq_empty_of_forall_notMem
  rintro k ⟨hk, hget⟩
  exact hk (hn k (h.2 k hget))

end

theorem isLeaf_iff {e : Element} {tag : String} {attrib : List (String × String)} :
    isLeaf e tag attrib = true ↔ e.tag = tag ∧ e.leaf = ⟨dict attrib, 0⟩ := by
  unfold isLeaf Element.leaf
  rw [Bool.and_eq_true, Bool.and_eq_true, decide_eq_true_iff, dictEq_iff, List.isEmpty_iff,
    Leaf.mk.injEq, List.length_eq_zero_iff, and_assoc]
  exact and_congr_right fun _ => and_comm

/-! ### Domains -/

/-- The image of a domain of this name. -/
def ImageOk (name : String) (image : Element) : Prop :=
  image.tag = "program_image" ∧ image.leaf = ⟨dict [("path", name ++ ".elf")], 0⟩

theorem checkImage_ok {α : Type*} {name : String} {image : Element} {rest : Except String α} {a : α} :
    (image.tag = "program_image" ∧ checkImage name image rest = .ok a) ↔
      ImageOk name image ∧ rest = .ok a := by
  unfold checkImage ImageOk
  rw [attributes_ok, require_ok, Bool.and_eq_true, List.isEmpty_iff, decide_eq_true_iff]
  constructor
  · rintro ⟨htag, hkeys, ⟨hchildren, hpath⟩, hrest⟩
    refine ⟨⟨htag, ?_⟩, hrest⟩
    have hget : image.get "path" = some (name ++ ".elf") := by
      rw [get_of_value (hkeys.1 "path" (List.mem_singleton_self _)), hpath]
    rw [Element.leaf, hchildren, List.length_nil, Leaf.mk.injEq, and_iff_left rfl]
    funext k
    by_cases hk : k = "path"
    · rw [hk, hget]
      rfl
    · have hnone : image.get k = none := by
        by_contra hne
        simpa [hk] using hkeys.2 k hne
      rw [hnone, dict_cons, if_neg hk, dict_nil]
  · rintro ⟨⟨htag, hleaf⟩, hrest⟩
    obtain ⟨hget, hchildren⟩ := Leaf.mk.inj hleaf
    refine ⟨htag, ⟨?_, ?_⟩, ⟨List.length_eq_zero_iff.mp hchildren, ?_⟩, hrest⟩
    · intro k hk
      obtain rfl := List.mem_singleton.mp hk
      rw [hget]
      exact Option.some_ne_none _
    · intro k hk
      rw [hget] at hk
      left
      rw [List.mem_singleton]
      by_contra hne
      rw [dict_cons, if_neg hne] at hk
      exact hk (dict_nil k)
    · unfold value
      rw [hget]
      rfl

/-- The children of a domain of this name. -/
def PartsOk (name : String) (parts : List Element) : Bool → Prop
  | false => ∃ image, parts = [image] ∧ ImageOk name image
  | true => ∃ image mapping irq, parts = [image, mapping, irq] ∧ ImageOk name image ∧
      (mapping.tag = "map" ∧ mapping.leaf = ⟨dict serialMap, 0⟩) ∧
      (irq.tag = "irq" ∧ irq.leaf = ⟨dict serialIrq, 0⟩)

theorem checkParts_ok {serial : Bool} {name : String} {parts : List Element} {u : Unit} :
    checkParts serial name parts = .ok u ↔ PartsOk name parts serial := by
  obtain rfl : u = () := rfl
  cases serial with
  | false =>
    unfold PartsOk
    constructor
    · intro h
      match parts, h with
      | [image], h =>
        have himage := require_ok.mp h
        rw [decide_eq_true_iff] at himage
        exact ⟨image, rfl, (checkImage_ok.mp himage).1⟩
    · rintro ⟨image, rfl, himage⟩
      refine require_ok.mpr ?_
      rw [decide_eq_true_iff]
      exact checkImage_ok.mpr ⟨himage, rfl⟩
  | true =>
    unfold PartsOk
    constructor
    · intro h
      match parts, h with
      | [image, mapping, irq], h =>
        have himage := require_ok.mp h
        rw [decide_eq_true_iff] at himage
        obtain ⟨himage, hrest⟩ := checkImage_ok.mp himage
        obtain ⟨hmapping, hrest⟩ := require_ok.mp hrest
        obtain ⟨hirq, -⟩ := require_ok.mp hrest
        exact ⟨image, mapping, irq, rfl, himage, isLeaf_iff.mp hmapping, isLeaf_iff.mp hirq⟩
    · rintro ⟨image, mapping, irq, rfl, himage, hmapping, hirq⟩
      refine require_ok.mpr ?_
      rw [decide_eq_true_iff]
      refine checkImage_ok.mpr ⟨himage, ?_⟩
      exact require_ok.mpr ⟨isLeaf_iff.mpr hmapping, require_ok.mpr ⟨isLeaf_iff.mpr hirq, rfl⟩⟩

section

variable {decimal : Char → Option ℕ} {terminal : Bool}

/-- The name of a domain. -/
def domainName (pd : Element) : String := value pd "name"

/-- The domain with the interrupt and the smaller budget. -/
def isSerial (terminal : Bool) (name : String) : Bool := terminal && name = "serial"

/-- The budget of a domain. -/
def budgetOf (terminal : Bool) (name : String) : ℤ := if isSerial terminal name then 2000 else 10000

/-- A domain that passes, whatever other domains there are. -/
structure DomainOk (decimal : Char → Option ℕ) (terminal : Bool) (pd : Element) : Prop where
  keys : Keys pd ["name", "priority", "budget", "period"] []
  known : dict (domains terminal) (domainName pd) ≠ none
  priority : number decimal pd "priority" = dict (domains terminal) (domainName pd)
  budget : number decimal pd "budget" = some (budgetOf terminal (domainName pd))
  period : number decimal pd "period" = some 10000
  parts : PartsOk (domainName pd) pd.children (isSerial terminal (domainName pd))

/-- The name of a domain and the priority that goes with it. -/
def entryOf (terminal : Bool) (name : String) : String × ℤ :=
  (name, (dict (domains terminal) name).getD 0)

theorem checkDomain_ok {priorities : List (String × ℤ)} {pd : Element} {entry : String × ℤ} :
    checkDomain decimal terminal priorities pd = .ok entry ↔
      DomainOk decimal terminal pd ∧ domainName pd ∉ priorities.map Prod.fst ∧
        entry = entryOf terminal (domainName pd) := by
  unfold checkDomain
  simp only [attributes_ok, require_ok, readInt_ok, bind_ok, checkParts_ok, decide_eq_true_iff]
  rw [mem_keys_iff, not_not, Bool.and_eq_true, decide_eq_true_iff, decide_eq_true_iff]
  constructor
  · rintro ⟨hkeys, ⟨hknown, hnew⟩, priority, hpriority, hdomain, budget, hbudget, hbudget', period,
      hperiod, rfl, -, hparts, heq⟩
    have hnumber : ∀ k ∈ ["name", "priority", "budget", "period"],
        number decimal pd k = pyInt decimal (value pd k) := fun k hk => number_of_value (hkeys.1 k hk)
    refine ⟨⟨hkeys, hknown, ?_, ?_, ?_, hparts⟩, hnew, ?_⟩
    · rw [hnumber _ (by simp), hpriority]
      exact hdomain.symm
    · rw [hnumber _ (by simp), hbudget, hbudget']
      rfl
    · rw [hnumber _ (by simp), hperiod]
    · unfold entryOf domainName
      rw [hdomain]
      exact (Except.ok.inj heq).symm
  · rintro ⟨⟨hkeys, hknown, hpriority, hbudget, hperiod, hparts⟩, hnew, rfl⟩
    have hnumber : ∀ k ∈ ["name", "priority", "budget", "period"],
        number decimal pd k = pyInt decimal (value pd k) := fun k hk => number_of_value (hkeys.1 k hk)
    rw [hnumber _ (by simp)] at hpriority hbudget hperiod
    obtain ⟨priority, hdomain⟩ := Option.ne_none_iff_exists'.mp hknown
    rw [hdomain] at hpriority
    refine ⟨hkeys, ⟨hknown, hnew⟩, priority, hpriority, hdomain, _, hbudget, rfl, _, hperiod, rfl,
      (), hparts, ?_⟩
    unfold entryOf
    rw [hdomain]
    rfl

theorem checkDomains_ok {pds : List Element} : ∀ {priorities out : List (String × ℤ)},
    checkDomains decimal terminal priorities pds = .ok out ↔
      (∀ pd ∈ pds, DomainOk decimal terminal pd) ∧ (pds.map domainName).Nodup ∧
        (∀ pd ∈ pds, domainName pd ∉ priorities.map Prod.fst) ∧
        out = priorities ++ (pds.map domainName).map (entryOf terminal) := by
  induction pds with
  | nil =>
    intro priorities out
    simp only [checkDomains, Except.ok.injEq]
    simp [eq_comm]
  | cons pd pds ih =>
    intro priorities out
    rw [checkDomains, bind_ok]
    simp only [checkDomain_ok, ih, List.forall_mem_cons, List.map_cons, List.nodup_cons,
      List.map_append, List.mem_append, List.map_nil, List.mem_singleton, not_or]
    constructor
    · rintro ⟨_, ⟨hok, hnew, rfl⟩, hoks, hnodup, hnews, rfl⟩
      refine ⟨⟨hok, hoks⟩, ⟨?_, hnodup⟩, ⟨hnew, fun x hx => (hnews x hx).1⟩, ?_⟩
      · intro hmem
        obtain ⟨x, hx, heq⟩ := List.mem_map.mp hmem
        exact (hnews x hx).2 heq
      · rw [List.append_assoc]
        rfl
    · rintro ⟨⟨hok, hoks⟩, ⟨hfirst, hnodup⟩, ⟨hnew, hnews⟩, rfl⟩
      refine ⟨_, ⟨hok, hnew, rfl⟩, hoks, hnodup, fun x hx => ⟨hnews x hx, ?_⟩, ?_⟩
      · intro heq
        exact hfirst (List.mem_map.mpr ⟨x, hx, heq⟩)
      · rw [List.append_assoc]
        rfl

theorem dict_entries (names : List String) (k : String) :
    dict (names.map (entryOf terminal)) k =
      if k ∈ names then some ((dict (domains terminal) k).getD 0) else none := by
  induction names with
  | nil => rfl
  | cons name names ih =>
    rw [List.map_cons, entryOf, dict_cons, ih]
    by_cases hk : k = name
    · subst hk
      rw [if_pos rfl, if_pos List.mem_cons_self]
    · rw [if_neg hk]
      simp [hk]

theorem nodup_domains (terminal : Bool) : ((domains terminal).map Prod.fst).Nodup := by
  cases terminal <;> decide

/-- **Domains.** The loop ends with the expected priorities if and only if every domain passes, and
their names are the expected ones. -/
theorem checkDomains_base {pds : List Element} :
    (∃ priorities, checkDomains decimal terminal [] pds = .ok priorities ∧
        dictEq priorities (domains terminal) = true) ↔
      (∀ pd ∈ pds, DomainOk decimal terminal pd) ∧
        (pds.map domainName).Perm ((domains terminal).map Prod.fst) := by
  simp only [checkDomains_ok, dictEq_iff, List.nil_append, List.map_nil, List.not_mem_nil,
    not_false_eq_true, implies_true, true_and]
  constructor
  · rintro ⟨_, ⟨hok, hnodup, rfl⟩, hdict⟩
    refine ⟨hok, (List.perm_ext_iff_of_nodup hnodup (nodup_domains terminal)).mpr fun k => ?_⟩
    rw [mem_keys_iff, ← hdict, dict_entries]
    by_cases hk : k ∈ pds.map domainName <;> simp [hk]
  · rintro ⟨hok, hperm⟩
    refine ⟨_, ⟨hok, hperm.nodup_iff.mpr (nodup_domains terminal), rfl⟩, ?_⟩
    funext k
    rw [dict_entries]
    by_cases hk : k ∈ pds.map domainName
    · rw [if_pos hk]
      rw [hperm.mem_iff, mem_keys_iff] at hk
      obtain ⟨n, hn⟩ := Option.ne_none_iff_exists'.mp hk
      rw [hn]
      rfl
    · rw [if_neg hk]
      rw [hperm.mem_iff, mem_keys_iff, not_not] at hk
      exact hk.symm

end

/-! ### Channels -/

section

variable {terminal : Bool}

/-- What an end may notify. -/
def notifyOf (terminal : Bool) (slot : Slot) : String :=
  if terminal && slot = ("serial", "1") then "true" else "false"

/-- An end that passes, whatever slots are taken. -/
structure EndOk (terminal : Bool) (e : Element) : Prop where
  keys : Keys e ["pd", "id", "notify"] ["pp"]
  children : e.children = []
  known : dict (domains terminal) (value e "pd") ≠ none
  pp : (e.get "pp").getD "false" ∈ ["true", "false"]
  notify : value e "notify" = notifyOf terminal (slotOf e)

theorem checkEnd_ok {seen out : List Slot} {e : Element} :
    checkEnd terminal seen e = .ok out ↔
      EndOk terminal e ∧ slotOf e ∉ seen ∧ out = seen ++ [slotOf e] := by
  unfold checkEnd
  simp only [attributes_ok, require_ok, decide_eq_true_iff, Except.ok.injEq]
  rw [List.isEmpty_iff]
  constructor
  · rintro ⟨hkeys, hchildren, hknown, hpp, hnotify, hnew, rfl⟩
    exact ⟨⟨hkeys, hchildren, hknown, hpp, hnotify⟩, hnew, rfl⟩
  · rintro ⟨⟨hkeys, hchildren, hknown, hpp, hnotify⟩, hnew, rfl⟩
    exact ⟨hkeys, hchildren, hknown, hpp, hnotify, hnew, rfl⟩

/-- The slots of a channel. -/
def slotsOf (channel : Element) : List Slot := channel.children.map slotOf

/-- The call of a channel with two ends. -/
def edgeOf (channel : Element) : Edge :=
  match channel.children with
  | [first, second] => if calls first then (slotOf first, slotOf second) else (slotOf second, slotOf first)
  | _ => (("", ""), ("", ""))

theorem slotsOf_pair {channel first second : Element} (h : channel.children = [first, second]) :
    slotsOf channel = [slotOf first, slotOf second] := by
  unfold slotsOf
  rw [h]
  rfl

theorem edgeOf_pair {channel first second : Element} (h : channel.children = [first, second]) :
    edgeOf channel = (slotOf (if calls first then first else second),
      slotOf (if calls first then second else first)) := by
  unfold edgeOf
  rw [h]
  dsimp only
  split_ifs <;> rfl

/-- The priority of a slot's domain. -/
def rank (priorities : List (String × ℤ)) (slot : Slot) : ℤ := (dict priorities slot.1).getD 0

/-- A channel that passes, whatever slots are taken: one of its ends calls the other one, and to a
higher priority. -/
structure ChannelOk (terminal : Bool) (priorities : List (String × ℤ)) (channel : Element) : Prop where
  attrib : channel.attrib = []
  ends : ∃ first second, channel.children = [first, second] ∧
    (first.tag = "end" ∧ second.tag = "end") ∧ (EndOk terminal first ∧ EndOk terminal second) ∧
    calls first = !calls second
  upwards : rank priorities (edgeOf channel).1 < rank priorities (edgeOf channel).2

theorem one_calls {first second : Element} :
    ([first, second].filter calls).length = 1 ↔ calls first = !calls second := by
  rw [List.filter_cons, List.filter_cons, List.filter_nil]
  cases calls first <;> cases calls second <;> simp

/-- A channel with two ends passes if they do, one calls and the other does not, upwards. -/
theorem checkChannel_pair {priorities : List (String × ℤ)} {seen : List Slot}
    {channel first second : Element} {out : List Slot × Edge}
    (hchildren : channel.children = [first, second]) :
    checkChannel terminal priorities seen channel = .ok out ↔
      channel.attrib = [] ∧ (first.tag = "end" ∧ second.tag = "end") ∧
        (EndOk terminal first ∧ slotOf first ∉ seen) ∧
        (EndOk terminal second ∧ slotOf second ∉ seen ++ [slotOf first]) ∧
        calls first = !calls second ∧
        rank priorities (edgeOf channel).1 < rank priorities (edgeOf channel).2 ∧
        out = (seen ++ slotsOf channel, edgeOf channel) := by
  have hslots : seen ++ slotsOf channel = seen ++ [slotOf first] ++ [slotOf second] := by
    rw [slotsOf_pair hchildren, List.append_assoc]
    rfl
  rw [hslots, edgeOf_pair hchildren]
  unfold checkChannel
  rw [hchildren]
  simp only [require_ok, bind_ok, checkEnd_ok, decide_eq_true_iff, one_calls, Except.ok.injEq,
    Bool.and_eq_true, List.isEmpty_iff]
  constructor
  · rintro ⟨hattrib, htags, _, ⟨hfirst, hnew, rfl⟩, _, ⟨hsecond, hnew', rfl⟩, hcalls, hless, rfl⟩
    exact ⟨hattrib, htags, ⟨hfirst, hnew⟩, ⟨hsecond, hnew'⟩, hcalls, hless, rfl⟩
  · rintro ⟨hattrib, htags, ⟨hfirst, hnew⟩, ⟨hsecond, hnew'⟩, hcalls, hless, rfl⟩
    exact ⟨hattrib, htags, _, ⟨hfirst, hnew, rfl⟩, _, ⟨hsecond, hnew', rfl⟩, hcalls, hless, rfl⟩

theorem checkChannel_children {priorities : List (String × ℤ)} {seen : List Slot} {channel : Element}
    {out : List Slot × Edge} (h : checkChannel terminal priorities seen channel = .ok out) :
    ∃ first second, channel.children = [first, second] := by
  obtain ⟨-, h⟩ := require_ok.mp h
  rcases hchildren : channel.children with _ | ⟨first, _ | ⟨second, _ | ⟨third, more⟩⟩⟩
  · rw [hchildren] at h
    exact absurd h error_ne_ok
  · rw [hchildren] at h
    exact absurd h error_ne_ok
  · exact ⟨first, second, rfl⟩
  · rw [hchildren] at h
    exact absurd h error_ne_ok

/-- Two slots that are new one after the other. -/
theorem new_pair {a b : Slot} {seen : List Slot} :
    (a ∉ seen ∧ b ∉ seen ++ [a]) ↔ [a, b].Nodup ∧ ∀ slot ∈ [a, b], slot ∉ seen := by
  simp only [List.mem_append, List.mem_singleton, not_or, List.nodup_cons, List.not_mem_nil,
    not_false_eq_true, List.nodup_nil, and_true, List.forall_mem_cons, forall_eq]
  constructor
  · intro ⟨ha, hb, hne⟩
    exact ⟨fun heq => hne heq.symm, ha, hb⟩
  · intro ⟨hne, ha, hb⟩
    exact ⟨ha, hb, fun heq => hne heq.symm⟩

theorem checkChannel_ok {priorities : List (String × ℤ)} {seen : List Slot} {channel : Element}
    {out : List Slot × Edge} :
    checkChannel terminal priorities seen channel = .ok out ↔
      ChannelOk terminal priorities channel ∧ (slotsOf channel).Nodup ∧
        (∀ slot ∈ slotsOf channel, slot ∉ seen) ∧ out = (seen ++ slotsOf channel, edgeOf channel) := by
  constructor
  · intro h
    obtain ⟨first, second, hchildren⟩ := checkChannel_children h
    obtain ⟨hattrib, htags, ⟨hfirst, hnew⟩, ⟨hsecond, hnew'⟩, hcalls, hless, rfl⟩ :=
      (checkChannel_pair hchildren).mp h
    have hslots := new_pair.mp ⟨hnew, hnew'⟩
    rw [← slotsOf_pair hchildren] at hslots
    exact ⟨⟨hattrib, ⟨first, second, hchildren, htags, ⟨hfirst, hsecond⟩, hcalls⟩, hless⟩, hslots.1,
      hslots.2, rfl⟩
  · rintro ⟨⟨hattrib, ⟨first, second, hchildren, htags, ⟨hfirst, hsecond⟩, hcalls⟩, hless⟩, hnodup,
      hnew, rfl⟩
    rw [slotsOf_pair hchildren] at hnodup hnew
    obtain ⟨hfirst', hsecond'⟩ := new_pair.mpr ⟨hnodup, hnew⟩
    exact (checkChannel_pair hchildren).mpr
      ⟨hattrib, htags, ⟨hfirst, hfirst'⟩, ⟨hsecond, hsecond'⟩, hcalls, hless, rfl⟩

theorem checkChannels_ok {priorities : List (String × ℤ)} {channels : List Element} :
    ∀ {seen : List Slot} {edges out : List Edge},
      checkChannels terminal priorities seen edges channels = .ok out ↔
        (∀ channel ∈ channels, ChannelOk terminal priorities channel) ∧
          (channels.flatMap slotsOf).Nodup ∧ (∀ slot ∈ channels.flatMap slotsOf, slot ∉ seen) ∧
          out = edges ++ channels.map edgeOf := by
  induction channels with
  | nil =>
    intro seen edges out
    simp only [checkChannels, Except.ok.injEq]
    simp [eq_comm]
  | cons channel channels ih =>
    intro seen edges out
    rw [checkChannels, bind_ok]
    simp only [checkChannel_ok, ih, List.forall_mem_cons, List.map_cons, List.flatMap_cons,
      List.nodup_append, List.mem_append]
    constructor
    · rintro ⟨_, ⟨hok, hnodup, hnew, rfl⟩, hoks, hnodups, hnews, rfl⟩
      refine ⟨⟨hok, hoks⟩, ⟨hnodup, hnodups, ?_⟩, ?_, ?_⟩
      · rintro slot hmem _ hmem' rfl
        exact hnews slot hmem' (List.mem_append_right _ hmem)
      · rintro slot (hmem | hmem)
        · exact hnew slot hmem
        · exact fun hmem' => hnews slot hmem (List.mem_append_left _ hmem')
      · rw [List.append_assoc]
        rfl
    · rintro ⟨⟨hok, hoks⟩, ⟨hnodup, hnodups, hapart⟩, hnew, rfl⟩
      refine ⟨_, ⟨hok, hnodup, fun slot hmem => hnew slot (Or.inl hmem), rfl⟩, hoks, hnodups, ?_, ?_⟩
      · intro slot hmem hmem'
        rcases List.mem_append.mp hmem' with hmem' | hmem'
        · exact hnew slot (Or.inr hmem) hmem'
        · exact hapart slot hmem' slot hmem rfl
      · rw [List.append_assoc]
        rfl

theorem ChannelOk.slots {priorities : List (String × ℤ)} {channel : Element}
    (h : ChannelOk terminal priorities channel) :
    (slotsOf channel).Perm [(edgeOf channel).1, (edgeOf channel).2] := by
  obtain ⟨first, second, hchildren, -, -, -⟩ := h.ends
  rw [slotsOf_pair hchildren, edgeOf_pair hchildren]
  by_cases hcalls : calls first = true
  · rw [if_pos hcalls, if_pos hcalls]
  · rw [if_neg hcalls, if_neg hcalls]
    exact .swap _ _ _

theorem slots_perm {priorities : List (String × ℤ)} {channels : List Element}
    (h : ∀ channel ∈ channels, ChannelOk terminal priorities channel) :
    (channels.flatMap slotsOf).Perm ((channels.map edgeOf).flatMap fun e => [e.1, e.2]) := by
  induction channels with
  | nil => exact .nil
  | cons channel channels ih =>
    obtain ⟨hok, hoks⟩ := List.forall_mem_cons.mp h
    rw [List.flatMap_cons, List.map_cons, List.flatMap_cons]
    exact hok.slots.append (ih hoks)

/-- Calls that share no slot are different. -/
theorem nodup_of_slots {edges : List Edge} (h : (edges.flatMap fun e => [e.1, e.2]).Nodup) :
    edges.Nodup := by
  refine (List.nodup_flatMap.mp h).2.imp ?_
  rintro a _ hdisjoint rfl
  exact hdisjoint List.mem_cons_self List.mem_cons_self

theorem nodup_expected (terminal : Bool) :
    ((expectedEdges terminal).flatMap fun e => [e.1, e.2]).Nodup := by
  cases terminal <;> decide

theorem expected_free (terminal : Bool) :
    ∀ slot ∈ (expectedEdges terminal).flatMap fun e => [e.1, e.2], slot ∉ takenSlots terminal := by
  cases terminal <;> decide

/-- **Channels.** The loop ends with the expected calls if and only if every channel passes, and
their calls are the expected ones. -/
theorem checkChannels_base {priorities : List (String × ℤ)} {channels : List Element} :
    (∃ edges, checkChannels terminal priorities (takenSlots terminal) [] channels = .ok edges ∧
        (edges.all (· ∈ expectedEdges terminal) && (expectedEdges terminal).all (· ∈ edges)) = true) ↔
      (∀ channel ∈ channels, ChannelOk terminal priorities channel) ∧
        (channels.map edgeOf).Perm (expectedEdges terminal) := by
  simp only [checkChannels_ok, List.nil_append, Bool.and_eq_true, List.all_eq_true,
    decide_eq_true_iff]
  constructor
  · rintro ⟨_, ⟨hok, hnodup, -, rfl⟩, hsub, hsup⟩
    have hedges := nodup_of_slots ((slots_perm hok).nodup_iff.mp hnodup)
    refine ⟨hok, (List.perm_ext_iff_of_nodup hedges (nodup_of_slots (nodup_expected terminal))).mpr ?_⟩
    exact fun e => ⟨hsub e, hsup e⟩
  · rintro ⟨hok, hperm⟩
    have hslots : (channels.flatMap slotsOf).Perm
        ((expectedEdges terminal).flatMap fun e => [e.1, e.2]) :=
      (slots_perm hok).trans (hperm.flatMap_right _)
    refine ⟨_, ⟨hok, hslots.nodup_iff.mpr (nodup_expected terminal), ?_, rfl⟩, ?_, ?_⟩
    · exact fun slot hmem => expected_free terminal slot (hslots.mem_iff.mp hmem)
    · exact fun e hmem => hperm.mem_iff.mp hmem
    · exact fun e hmem => hperm.mem_iff.mpr hmem

/-! ### The checks of the terminal and of the seed -/

/-- **What the checks accept.** -/
structure BaseOk (decimal : Char → Option ℕ) (terminal : Bool) (root : Element) : Prop where
  tag : root.tag = "system"
  attrib : root.attrib = []
  tags : ∀ c ∈ root.children, c.tag ∈ allowed terminal
  bare : root.bare = true
  regions : terminal = true → ∃ region, root.findall "memory_region" = [region] ∧
    region.leaf = ⟨dict uartRegion, 0⟩
  domains : ∀ pd ∈ root.findall "protection_domain", DomainOk decimal terminal pd
  names : ((root.findall "protection_domain").map domainName).Perm
    ((Topology.domains terminal).map Prod.fst)
  channels : ∀ channel ∈ root.findall "channel", ChannelOk terminal (Topology.domains terminal) channel
  edges : ((root.findall "channel").map edgeOf).Perm (expectedEdges terminal)

theorem checkRegions_iff {regions : List Element} :
    checkRegions regions = true ↔ ∃ region, regions = [region] ∧ region.leaf = ⟨dict uartRegion, 0⟩ := by
  have hleaf : ∀ region : Element, (region.children.isEmpty && dictEq region.attrib uartRegion) = true ↔
      region.leaf = ⟨dict uartRegion, 0⟩ := by
    intro region
    rw [Bool.and_eq_true, List.isEmpty_iff, dictEq_iff, Element.leaf, Leaf.mk.injEq,
      List.length_eq_zero_iff]
    exact and_comm
  rcases regions with _ | ⟨region, _ | ⟨region', regions⟩⟩
  · simp [checkRegions]
  · rw [checkRegions, hleaf]
    simp
  · simp [checkRegions]

theorem checkBase_ok {decimal : Char → Option ℕ} {root : Element} :
    checkBase decimal terminal root = .ok () ↔ BaseOk decimal terminal root := by
  have hrank : ∀ {priorities : List (String × ℤ)}, dictEq priorities (domains terminal) = true →
      ∀ channel, ChannelOk terminal priorities channel ↔
        ChannelOk terminal (domains terminal) channel := by
    intro priorities hdict channel
    have hsame : rank priorities = rank (domains terminal) := by
      funext slot
      unfold rank
      rw [dictEq_iff.mp hdict]
    constructor
    · intro h
      exact ⟨h.attrib, h.ends, hsame ▸ h.upwards⟩
    · intro h
      exact ⟨h.attrib, h.ends, hsame ▸ h.upwards⟩
  unfold checkBase
  simp only [require_ok, bind_ok, and_true]
  constructor
  · rintro ⟨hroot, htags, hbare, hregions, priorities, hdomains, hdict, edges, hedges⟩
    obtain ⟨hok, hnames⟩ := checkDomains_base.mp ⟨priorities, hdomains, hdict⟩
    obtain ⟨hchannels, hperm⟩ := checkChannels_base.mp ⟨edges, hedges⟩
    rw [Bool.and_eq_true, decide_eq_true_iff, List.isEmpty_iff] at hroot
    refine ⟨hroot.1, hroot.2, ?_, hbare, ?_, hok, hnames, ?_, hperm⟩
    · intro c hc
      exact of_decide_eq_true (List.all_eq_true.mp htags c hc)
    · rintro rfl
      exact checkRegions_iff.mp hregions
    · exact fun channel hmem => (hrank hdict channel).mp (hchannels channel hmem)
  · intro h
    obtain ⟨priorities, hdomains, hdict⟩ := checkDomains_base.mpr ⟨h.domains, h.names⟩
    obtain ⟨edges, hedges⟩ := checkChannels_base.mpr
      ⟨fun channel hmem => (hrank hdict channel).mpr (h.channels channel hmem), h.edges⟩
    refine ⟨?_, ?_, h.bare, ?_, priorities, hdomains, hdict, edges, hedges⟩
    · rw [Bool.and_eq_true, decide_eq_true_iff, List.isEmpty_iff]
      exact ⟨h.tag, h.attrib⟩
    · exact List.all_eq_true.mpr fun c hc => decide_eq_true (h.tags c hc)
    · by_cases hterminal : terminal = true
      · rw [checkRegions_iff.mpr (h.regions hterminal), Bool.or_true]
      · rw [Bool.eq_false_iff.mpr hterminal]
        rfl

end

/-! ### What an accepted tree grants -/

section

variable {decimal : Char → Option ℕ} {terminal : Bool}

/-- The domain of a name, with an image. -/
def domainOf (terminal : Bool) (name image : String) : Domain where
  name := some name
  priority := dict (domains terminal) name
  budget := some (budgetOf terminal name)
  period := some 10000
  further := ∅
  images := {⟨dict [("path", image)], 0⟩}
  maps := if isSerial terminal name then {⟨dict serialMap, 0⟩} else 0
  irqs := if isSerial terminal name then {⟨dict serialIrq, 0⟩} else 0
  others := 0

theorem DomainOk.view {pd : Element} (h : DomainOk decimal terminal pd) :
    domainView decimal pd = domainOf terminal (domainName pd) (domainName pd ++ ".elf") := by
  have hname : pd.get "name" = some (domainName pd) := get_of_value (h.keys.1 "name" (by simp))
  have hfurther : further pd ["name", "priority", "budget", "period"] = ∅ :=
    h.keys.further fun k hk => hk.elim id fun hk => absurd hk List.not_mem_nil
  have hparts := h.parts
  unfold domainView domainOf
  rw [hname, h.priority, h.budget, h.period, hfurther]
  cases hserial : isSerial terminal (domainName pd) with
  | false =>
    rw [hserial] at hparts
    obtain ⟨image, hchildren, htag, hleaf⟩ := hparts
    rw [hchildren]
    simp [tagged, htag, hleaf]
  | true =>
    rw [hserial] at hparts
    obtain ⟨image, mapping, irq, hchildren, ⟨htag, hleaf⟩, ⟨htag', hleaf'⟩, htag'', hleaf''⟩ := hparts
    rw [hchildren]
    simp [tagged, htag, hleaf, htag', hleaf', htag'', hleaf'']

/-- The end of a slot. -/
def endOf (terminal : Bool) (slot : Slot) (pp : String) : End :=
  ⟨some slot.1, some slot.2, pp, some (notifyOf terminal slot), ∅, 0⟩

/-- The channel of a call. -/
def channelOf (terminal : Bool) (e : Edge) : Channel :=
  ⟨fun _ => none, {endOf terminal e.1 "true", endOf terminal e.2 "false"}, 0⟩

theorem EndOk.view {e : Element} (h : EndOk terminal e) :
    endView e = endOf terminal (slotOf e) (if calls e then "true" else "false") := by
  have hfurther : further e ["pd", "id", "pp", "notify"] = ∅ := by
    refine h.keys.further fun k hk => ?_
    simp only [List.mem_cons, List.not_mem_nil, or_false] at hk ⊢
    tauto
  have hpp : (e.get "pp").getD "false" = if calls e then "true" else "false" := by
    have hmem := h.pp
    unfold calls
    cases hget : e.get "pp" with
    | none => rfl
    | some v =>
      rw [hget] at hmem
      by_cases hv : v = "true"
      · rw [hv]
        rfl
      · simp only [Option.getD_some, List.mem_cons, List.not_mem_nil, or_false] at hmem
        rcases hmem with rfl | rfl
        · exact absurd rfl hv
        · rfl
  unfold endView endOf
  rw [get_of_value (h.keys.1 "pd" (by simp)), get_of_value (h.keys.1 "id" (by simp)),
    get_of_value (h.keys.1 "notify" (by simp)), h.notify, hfurther, hpp, h.children]
  rfl

theorem ChannelOk.view {priorities : List (String × ℤ)} {channel : Element}
    (h : ChannelOk terminal priorities channel) :
    channelView channel = channelOf terminal (edgeOf channel) := by
  obtain ⟨first, second, hchildren, ⟨htag, htag'⟩, ⟨hfirst, hsecond⟩, hcalls⟩ := h.ends
  have hget : channel.get = fun _ => none := by
    unfold Element.get
    rw [h.attrib]
    rfl
  unfold channelView channelOf
  rw [hget, edgeOf_pair hchildren, hchildren]
  cases hcall : calls second with
  | false =>
    rw [hcall] at hcalls
    have hends : [endView first, endView second] =
        [endOf terminal (slotOf first) "true", endOf terminal (slotOf second) "false"] := by
      rw [hfirst.view, hsecond.view, hcall, hcalls]
      rfl
    simp only [tagged, htag, htag', List.filter_cons, hcalls, Bool.not_false, if_true]
    simp only [decide_true, if_true, List.filter_nil, List.map_cons, List.map_nil, hends]
    rfl
  | true =>
    rw [hcall] at hcalls
    have hends : [endView first, endView second] =
        [endOf terminal (slotOf first) "false", endOf terminal (slotOf second) "true"] := by
      rw [hfirst.view, hsecond.view, hcall, hcalls]
      rfl
    simp only [tagged, htag, htag', List.filter_cons, hcalls, Bool.not_true]
    simp only [decide_true, if_true, List.filter_nil, List.map_cons, List.map_nil, hends]
    refine congrArg₂ (Channel.mk _) ?_ rfl
    exact Multiset.pair_comm _ _

/-- The regions of a profile without additions. -/
def regionsOf (terminal : Bool) : List Leaf := if terminal then [⟨dict uartRegion, 0⟩] else []

theorem BaseOk.regions_view {root : Element} (h : BaseOk decimal terminal root) :
    (tagged "memory_region" root.children).map Element.leaf = regionsOf terminal := by
  cases terminal with
  | true =>
    obtain ⟨region, hregion, hleaf⟩ := h.regions rfl
    have htagged : tagged "memory_region" root.children = [region] := hregion
    rw [htagged, List.map_singleton, hleaf]
    rfl
  | false =>
    have hnone : tagged "memory_region" root.children = [] := by
      refine List.filter_eq_nil_iff.mpr fun c hc htag => ?_
      have hallowed := h.tags c hc
      rw [of_decide_eq_true htag] at hallowed
      exact absurd hallowed (by decide)
    rw [hnone]
    rfl

theorem BaseOk.channels_view {root : Element} (h : BaseOk decimal terminal root) :
    ((tagged "channel" root.children).map channelView).Perm
      ((expectedEdges terminal).map (channelOf terminal)) := by
  have hviews : (tagged "channel" root.children).map channelView =
      ((root.findall "channel").map edgeOf).map (channelOf terminal) := by
    rw [List.map_map]
    exact List.map_congr_left fun channel hmem => (h.channels channel hmem).view
  rw [hviews]
  exact h.edges.map _

theorem BaseOk.domains_view {root : Element} (h : BaseOk decimal terminal root) :
    ((tagged "protection_domain" root.children).map (domainView decimal)).Perm
      (((Topology.domains terminal).map Prod.fst).map fun name =>
        domainOf terminal name (name ++ ".elf")) := by
  have hviews : (tagged "protection_domain" root.children).map (domainView decimal) =
      ((root.findall "protection_domain").map domainName).map
        fun name => domainOf terminal name (name ++ ".elf") := by
    rw [List.map_map]
    exact List.map_congr_left fun pd hmem => (h.domains pd hmem).view
  rw [hviews]
  exact h.names.map _

theorem BaseOk.others {root : Element} (h : BaseOk decimal terminal root) :
    (root.children.filter fun c => c.tag ∉ ["memory_region", "protection_domain", "channel"]) = [] := by
  refine List.filter_eq_nil_iff.mpr fun c hc htag => of_decide_eq_true htag ?_
  have hallowed := h.tags c hc
  cases terminal <;> simp [allowed] at hallowed ⊢ <;> tauto

/-- What an accepted tree of a profile without additions grants. -/
def grantsBase (terminal : Bool) : Grants where
  regions := (regionsOf terminal : List Leaf)
  domains := (((domains terminal).map Prod.fst).map
    fun name => domainOf terminal name (name ++ ".elf") : List Domain)
  channels := ((expectedEdges terminal).map (channelOf terminal) : List Channel)
  others := 0

theorem BaseOk.grants {root : Element} (h : BaseOk decimal terminal root) :
    grants decimal root.children = grantsBase terminal := by
  unfold Topology.grants grantsBase
  rw [h.regions_view, h.others, Multiset.coe_eq_coe.mpr h.domains_view,
    Multiset.coe_eq_coe.mpr h.channels_view]
  rfl

/-- **The view of an accepted tree of a profile without additions.** -/
theorem view_base {root : Element} (h : BaseOk decimal terminal root) :
    view decimal root = ⟨"system", fun _ => none, grantsBase terminal⟩ := by
  have hget : root.get = fun _ => none := by
    unfold Element.get
    rw [h.attrib]
    rfl
  unfold view
  rw [h.tag, hget, h.grants]

end

end Topology
end Tcs
