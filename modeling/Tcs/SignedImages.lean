/-
# The signed images, and the graph of every profile

A description of a signed image is checked in two phases. What the first phase
takes from the root has the shapes that it is after, and the rest is left
(`takeAll_ok`); of the rest it changes the images of two domains, each of which
it has found once, with one image that it has compared (`renameImage_ok`). So
such a tree grants what was taken and what the changed rest grants, but for
the two images (`grants_takeAll`, `grants_renameImage`), and the changed rest
passes the checks of the terminal. Nothing can slip through between the
phases: what the tree grants is fixed (`view_accepted`).

The order of the root's children does not matter to any of this
(`validate_perm`), and the shipped descriptions pass (`validate_shipped`).

Key definitions: `shipped`, `grantsSigned`, `grantsOf`, `edgesOf`.
Key theorems: `takeAll_ok`, `renameImage_ok`, `grants_takeAll`,
`grants_renameImage`, `view_accepted`, `validate_perm`, `validate_exact`.
-/
import Tcs.Authority

namespace Tcs
namespace Topology

open Xml

/-! ### The shipped descriptions -/

/-- The white space before a line of the root, of a child of the root and of a child of that. -/
def line0 : String := "\n"
def line1 : String := "\n    "
def line2 : String := "\n        "

/-- Elements on lines of their own; the end tag of their parent follows the last one. -/
def onLines : List (String × List (String × String)) → List Element
  | [] => []
  | [(tag, attrib)] => [.mk tag attrib "" line1 []]
  | (tag, attrib) :: more => .mk tag attrib "" line2 [] :: onLines more

/-- A domain of a file. -/
def fileDomain (name priority budget image : String) (more : List (String × List (String × String))) :
    Element :=
  .mk "protection_domain"
    [("name", name), ("priority", priority), ("budget", budget), ("period", "10000")] line2 line1
    (onLines (("program_image", [("path", image)]) :: more))

/-- The serial domain of a file. -/
def fileSerial : Element :=
  fileDomain "serial" "60" "2000" "serial.elf" [("map", serialMap), ("irq", serialIrq)]

/-- The ends of a channel. -/
def fileEnds (caller source callee target notify : String) : List (String × List (String × String)) :=
  [("end", [("pd", caller), ("id", source), ("pp", "true"), ("notify", "false")]),
    ("end", [("pd", callee), ("id", target), ("notify", notify)])]

/-- A channel of a file, with its ends on lines of their own. -/
def fileChannel (caller source callee target notify : String) : Element :=
  .mk "channel" [] line2 line1 (onLines (fileEnds caller source callee target notify))

/-- A channel of a file on one line. -/
def lineChannel (caller source callee target notify : String) : Element :=
  .mk "channel" [] "" line1
    ((fileEnds caller source callee target notify).map fun p => plain "end" p.2 [])

/-- A region of a file. -/
def fileRegion (attrib : List (String × String)) : Element := .mk "memory_region" attrib "" line1 []

/-- The root of a file; the last of its children ends its last line. -/
def fileSystem (children : List Element) (last : Element) : Element :=
  .mk "system" [] line1 "" (children ++ [.mk last.tag last.attrib last.text line0 last.children])

/-- The files of `system/`, in the order of the profiles: `tcs.system`, `terminal.system`,
`admin-test.system` and `interactive.system`. -/
def shipped : Profile → Element
  | .seed => fileSystem
      [fileDomain "console" "10" "10000" "console.elf" [],
        fileDomain "client" "20" "10000" "client.elf" [],
        fileDomain "storage" "30" "10000" "storage.elf" [],
        fileDomain "policy" "40" "10000" "policy.elf" [],
        fileDomain "audit" "50" "10000" "audit.elf" [],
        fileChannel "console" "0" "policy" "0" "false",
        fileChannel "console" "1" "client" "0" "false",
        fileChannel "client" "1" "storage" "0" "false",
        fileChannel "storage" "1" "policy" "1" "false",
        fileChannel "policy" "2" "audit" "0" "false"]
      (fileChannel "console" "2" "audit" "1" "false")
  | .terminal => fileSystem
      [fileRegion uartRegion,
        fileDomain "terminal" "10" "10000" "terminal.elf" [],
        fileDomain "client" "20" "10000" "client.elf" [],
        fileDomain "storage" "30" "10000" "storage.elf" [],
        fileDomain "policy" "40" "10000" "policy.elf" [],
        fileDomain "audit" "50" "10000" "audit.elf" [],
        fileSerial,
        fileChannel "terminal" "0" "serial" "1" "true",
        fileChannel "terminal" "1" "client" "0" "false",
        fileChannel "client" "1" "storage" "0" "false",
        fileChannel "storage" "1" "policy" "1" "false"]
      (fileChannel "policy" "2" "audit" "0" "false")
  | .adminTest => fileSystem
      [fileRegion uartRegion, fileRegion fwcfgRegion,
        fileDomain "terminal" "10" "10000" "admin_client.elf" [],
        fileDomain "client" "20" "10000" "client.elf" [],
        fileDomain "administrator" "25" "10000" "admin.elf" [],
        fileDomain "storage" "30" "10000" "storage.elf" [],
        fileDomain "policy" "40" "10000" "admin_policy.elf" [],
        fileDomain "audit" "50" "10000" "audit.elf" [],
        fileSerial,
        fileDomain "test_boot" "70" "10000" "admin_boot.elf" [("map", fwcfgMap)],
        fileChannel "terminal" "0" "serial" "1" "true",
        fileChannel "terminal" "1" "client" "0" "false",
        fileChannel "client" "1" "storage" "0" "false",
        fileChannel "storage" "1" "policy" "1" "false",
        fileChannel "policy" "2" "audit" "0" "false",
        fileChannel "terminal" "2" "administrator" "0" "false",
        fileChannel "administrator" "2" "policy" "0" "false",
        fileChannel "administrator" "1" "test_boot" "0" "false"]
      (fileChannel "terminal" "3" "test_boot" "1" "false")
  | .interactive => fileSystem
      [fileRegion uartRegion, fileRegion fwcfgRegion,
        fileDomain "terminal" "10" "10000" "terminal.elf" [],
        fileDomain "client" "20" "10000" "client.elf" [],
        fileDomain "administrator" "25" "10000" "launch_admin.elf" [],
        fileDomain "storage" "30" "10000" "storage.elf" [],
        fileDomain "policy" "40" "10000" "admin_policy.elf" [],
        fileDomain "audit" "50" "10000" "audit.elf" [],
        fileSerial,
        fileDomain "bootstrap" "70" "10000" "launch_boot.elf" [("map", fwcfgMap)],
        lineChannel "terminal" "0" "serial" "1" "true",
        lineChannel "terminal" "1" "client" "0" "false",
        lineChannel "client" "1" "storage" "0" "false",
        lineChannel "storage" "1" "policy" "1" "false",
        lineChannel "policy" "2" "audit" "0" "false",
        lineChannel "terminal" "2" "administrator" "0" "false",
        lineChannel "administrator" "2" "policy" "0" "false"]
      (lineChannel "administrator" "1" "bootstrap" "0" "false")

/-! ### Grants of lists of elements -/

section

variable {decimal : Char → Option ℕ}

/-- What two lists of elements grant together. -/
def Grants.both (g g' : Grants) : Grants :=
  ⟨g.regions + g'.regions, g.domains + g'.domains, g.channels + g'.channels, g.others + g'.others⟩

/-- The grants with changed domains. -/
def Grants.mapDomains (f : Domain → Domain) (g : Grants) : Grants :=
  { g with domains := g.domains.map f }

theorem grants_append (es es' : List Element) :
    grants decimal (es ++ es') = (grants decimal es).both (grants decimal es') := by
  unfold grants Grants.both tagged
  simp only [List.filter_append, List.map_append, List.length_append, Multiset.coe_add]

theorem grants_perm {es es' : List Element} (h : es.Perm es') :
    grants decimal es = grants decimal es' := by
  have htagged : ∀ tag, (tagged tag es).Perm (tagged tag es') := fun tag => h.filter _
  unfold grants
  rw [Multiset.coe_eq_coe.mpr ((htagged "memory_region").map Element.leaf),
    Multiset.coe_eq_coe.mpr ((htagged "protection_domain").map (domainView decimal)),
    Multiset.coe_eq_coe.mpr ((htagged "channel").map channelView), (h.filter _).length_eq]

theorem tagged_shapes {es es' : List Element} (h : Element.SameShapes es es') (tag : String) :
    Element.SameShapes (tagged tag es) (tagged tag es') :=
  h.filter fun e e' he => by rw [(Element.shapeEq_iff.mp he).1]

theorem others_shapes {es es' : List Element} (h : Element.SameShapes es es') (tags : List String) :
    (es.filter fun e => e.tag ∉ tags).length = (es'.filter fun e => e.tag ∉ tags).length :=
  (h.filter fun e e' he => by rw [(Element.shapeEq_iff.mp he).1]).length_eq

theorem further_shape {e e' : Element} (h : e.get = e'.get) (names : List String) :
    further e names = further e' names := by
  unfold further
  rw [h]

theorem endView_shape {e e' : Element} (h : e.shapeEq e' = true) : endView e = endView e' := by
  obtain ⟨-, hget, -, -, hchildren⟩ := Element.shapeEq_iff.mp h
  unfold endView
  rw [hget, further_shape hget, hchildren.length_eq]

theorem channelView_shape {e e' : Element} (h : e.shapeEq e' = true) :
    channelView e = channelView e' := by
  obtain ⟨-, hget, -, -, hchildren⟩ := Element.shapeEq_iff.mp h
  have hends := (tagged_shapes hchildren "end").map fun _ _ he => endView_shape he
  have hothers := others_shapes hchildren ["end"]
  simp only [List.mem_singleton] at hothers
  unfold channelView
  rw [hget, hends, hothers]

theorem domainView_shape {e e' : Element} (h : e.shapeEq e' = true) :
    domainView decimal e = domainView decimal e' := by
  obtain ⟨-, hget, -, -, hchildren⟩ := Element.shapeEq_iff.mp h
  have hnumber : ∀ name, number decimal e name = number decimal e' name := by
    intro name
    unfold number
    rw [hget]
  have hleaves : ∀ tag, (tagged tag e.children).map Element.leaf =
      (tagged tag e'.children).map Element.leaf :=
    fun tag => (tagged_shapes hchildren tag).map fun _ _ he => Element.leaf_shape he
  unfold domainView
  simp only [hget, hnumber, hleaves, further_shape hget, others_shapes hchildren]

theorem grants_shapes {es es' : List Element} (h : Element.SameShapes es es') :
    grants decimal es = grants decimal es' := by
  unfold grants
  rw [(tagged_shapes h "memory_region").map fun _ _ he => Element.leaf_shape he,
    (tagged_shapes h "protection_domain").map fun _ _ he => domainView_shape he,
    (tagged_shapes h "channel").map fun _ _ he => channelView_shape he, others_shapes h]

/-! ### The first phase: what is taken -/

theorem perm_split (p : Element → Bool) (es : List Element) :
    es.Perm (es.filter p ++ es.filter fun e => !p e) :=
  (List.filter_append_perm p es).symm

/-- What is taken has the shapes that are wanted, and the rest is left. -/
theorem takeAll_ok {wanteds : List Element} : ∀ {children rest : List Element},
    takeAll wanteds children = .ok rest →
      ∃ taken, children.Perm (taken ++ rest) ∧ Element.SameShapes taken wanteds := by
  induction wanteds with
  | nil =>
    intro children rest h
    rw [takeAll, Except.ok.injEq] at h
    exact ⟨[], h ▸ .refl _, .nil⟩
  | cons wanted wanteds ih =>
    intro children rest h
    rw [takeAll, require_ok, decide_eq_true_iff] at h
    obtain ⟨e, he⟩ := List.length_eq_one_iff.mp h.1
    obtain ⟨taken, hperm, hshapes⟩ := ih h.2
    have hwanted : isWanted wanted e = true := by
      have hmem : e ∈ children.filter (isWanted wanted) := by
        rw [he]
        exact List.mem_singleton_self e
      exact (List.mem_filter.mp hmem).2
    refine ⟨e :: taken, ?_, .cons ?_ hshapes⟩
    · calc children.Perm
            (children.filter (isWanted wanted) ++ children.filter fun e => !isWanted wanted e) :=
            perm_split _ _
        _ = e :: children.filter fun e => !isWanted wanted e := by rw [he]; rfl
        List.Perm _ (e :: (taken ++ rest)) := hperm.cons e
    · exact (Bool.and_eq_true _ _ ▸ hwanted).2

theorem takeAll_perm {wanteds : List Element} : ∀ {children children' rest : List Element},
    children.Perm children' → takeAll wanteds children = .ok rest →
      ∃ rest', takeAll wanteds children' = .ok rest' ∧ rest.Perm rest' := by
  induction wanteds with
  | nil =>
    intro children children' rest hperm h
    rw [takeAll, Except.ok.injEq] at h
    exact ⟨children', rfl, h ▸ hperm⟩
  | cons wanted wanteds ih =>
    intro children children' rest hperm h
    rw [takeAll, require_ok, decide_eq_true_iff] at h
    obtain ⟨rest', hrest, hperm'⟩ := ih (hperm.filter _) h.2
    refine ⟨rest', ?_, hperm'⟩
    rw [takeAll, require_ok, decide_eq_true_iff]
    exact ⟨(hperm.filter _).length_eq ▸ h.1, hrest⟩

theorem grants_takeAll {wanteds children rest : List Element}
    (h : takeAll wanteds children = .ok rest) :
    grants decimal children = (grants decimal wanteds).both (grants decimal rest) := by
  obtain ⟨taken, hperm, hshapes⟩ := takeAll_ok h
  rw [grants_perm hperm, grants_append, grants_shapes hshapes]

end

/-! ### The second phase: images that are renamed -/

section

variable {decimal : Char → Option ℕ}

theorem tagged_map {f : Element → Element} (hf : ∀ e, (f e).tag = e.tag) (tag : String)
    (es : List Element) : tagged tag (es.map f) = (tagged tag es).map f := by
  unfold tagged
  rw [List.filter_map]
  refine congrArg (List.map f) (List.filter_congr fun e _ => ?_)
  rw [Function.comp_apply, hf]

/-- A change that leaves the elements of a tag alone. -/
theorem tagged_map_same {f : Element → Element} (hf : ∀ e, (f e).tag = e.tag) {tag : String}
    (hsame : ∀ e, e.tag = tag → f e = e) (es : List Element) :
    tagged tag (es.map f) = tagged tag es := by
  have hid : ∀ e ∈ tagged tag es, f e = e :=
    fun e hmem => hsame e (of_decide_eq_true (List.mem_filter.mp hmem).2)
  calc tagged tag (es.map f) = (tagged tag es).map f := tagged_map hf tag es
    _ = (tagged tag es).map id := List.map_congr_left hid
    _ = tagged tag es := List.map_id _

theorem others_map {f : Element → Element} (hf : ∀ e, (f e).tag = e.tag) (tags : List String)
    (es : List Element) :
    ((es.map f).filter fun e => e.tag ∉ tags).length = (es.filter fun e => e.tag ∉ tags).length := by
  rw [List.filter_map, List.length_map]
  refine congrArg List.length (List.filter_congr fun e _ => ?_)
  rw [Function.comp_apply, hf]

/-- What is done to a child of a domain whose image is renamed. -/
def renamed (name : String) (e : Element) : Element :=
  if e.tag = "program_image" then e.set "path" (name ++ ".elf") else e

theorem renamed_tag (name : String) (e : Element) : (renamed name e).tag = e.tag := by
  unfold renamed
  split_ifs <;> rfl

theorem renamed_same {name : String} {e : Element} (h : e.tag ≠ "program_image") :
    renamed name e = e := if_neg h

/-- The domain shows an image. -/
def Domain.showing (image : String) (d : Domain) : Domain :=
  { d with images := {⟨dict [("path", image)], 0⟩} }

/-- A domain whose image has been compared shows that image, and for the rest what it shows with
another one. -/
theorem domainView_withImage {pd found : Element} {name image : String}
    (hfound : pd.findall "program_image" = [found])
    (hshape : found.shapeEq (imageElement image) = true) :
    domainView decimal pd = (domainView decimal (withImage name pd)).showing image := by
  have hsame : ∀ tag, tag ≠ "program_image" →
      tagged tag (pd.children.map (renamed name)) = tagged tag pd.children := by
    intro tag htag
    exact tagged_map_same (renamed_tag name) (fun e he => renamed_same (he ▸ htag)) _
  have himages : (tagged "program_image" pd.children).map Element.leaf =
      [⟨dict [("path", image)], 0⟩] := by
    have htagged : tagged "program_image" pd.children = [found] := hfound
    rw [htagged, List.map_singleton, Element.leaf_shape hshape]
    rfl
  have hothers := others_map (renamed_tag name) ["program_image", "map", "irq"] pd.children
  have hchildren : (withImage name pd).children = pd.children.map (renamed name) := rfl
  unfold domainView Domain.showing
  simp only [hchildren, himages, hsame "map" (by decide), hsame "irq" (by decide), hothers]
  rfl

/-- What is done to a child of the root when the image of a domain is renamed. -/
def renamedIn (name : String) (e : Element) : Element :=
  if isDomain name e then withImage name e else e

theorem renamedIn_tag (name : String) (e : Element) : (renamedIn name e).tag = e.tag := by
  unfold renamedIn
  split_ifs <;> rfl

theorem renamedIn_same {name : String} {e : Element} (h : e.tag ≠ "protection_domain") :
    renamedIn name e = e := by
  refine if_neg fun hd => h ?_
  exact of_decide_eq_true (Bool.and_eq_true _ _ ▸ hd).1

/-- There is one domain of the name, with one image, which is the one that is wanted. -/
theorem renameImage_ok {name image : String} {children out : List Element} :
    renameImage name image children = .ok out ↔
      (∃ pd found, children.filter (isDomain name) = [pd] ∧ pd.findall "program_image" = [found] ∧
        found.shapeEq (imageElement image) = true) ∧ out = children.map (renamedIn name) := by
  unfold renameImage
  constructor
  · intro h
    rcases hdomains : children.filter (isDomain name) with _ | ⟨pd, _ | ⟨pd', more⟩⟩
    · rw [hdomains] at h
      exact absurd h error_ne_ok
    · rw [hdomains] at h
      dsimp only at h
      rcases hfound : pd.findall "program_image" with _ | ⟨found, _ | ⟨found', more⟩⟩
      · rw [hfound] at h
        exact absurd h error_ne_ok
      · rw [hfound] at h
        obtain ⟨hshape, hout⟩ := require_ok.mp h
        exact ⟨⟨pd, found, rfl, hfound, hshape⟩, (Except.ok.inj hout).symm⟩
      · rw [hfound] at h
        exact absurd h error_ne_ok
    · rw [hdomains] at h
      exact absurd h error_ne_ok
  · rintro ⟨⟨pd, found, hdomains, hfound, hshape⟩, rfl⟩
    rw [hdomains]
    dsimp only
    rw [hfound]
    exact require_ok.mpr ⟨hshape, rfl⟩

theorem renameImage_perm {name image : String} {children children' out : List Element}
    (hperm : children.Perm children') (h : renameImage name image children = .ok out) :
    ∃ out', renameImage name image children' = .ok out' ∧ out.Perm out' := by
  obtain ⟨⟨pd, found, hdomains, hfound, hshape⟩, rfl⟩ := renameImage_ok.mp h
  refine ⟨children'.map (renamedIn name), renameImage_ok.mpr ⟨⟨pd, found, ?_, hfound, hshape⟩, rfl⟩,
    hperm.map _⟩
  have hfilter := (hperm.filter (isDomain name)).symm
  rw [hdomains] at hfilter
  exact List.perm_singleton.mp hfilter

/-- The domain of a name shows an image. -/
def Domain.showingAt (name image : String) (d : Domain) : Domain :=
  if d.name = some name then d.showing image else d

/-- The renaming changes what is granted in one domain's image only. -/
theorem grants_renameImage {name image : String} {children out : List Element}
    (h : renameImage name image children = .ok out) :
    grants decimal children = (grants decimal out).mapDomains (Domain.showingAt name image) := by
  obtain ⟨⟨pd, found, hdomains, hfound, hshape⟩, rfl⟩ := renameImage_ok.mp h
  have hsame : ∀ tag, tag ≠ "protection_domain" →
      tagged tag (children.map (renamedIn name)) = tagged tag children := by
    intro tag htag
    exact tagged_map_same (renamedIn_tag name) (fun e he => renamedIn_same (he ▸ htag)) _
  have hothers := others_map (renamedIn_tag name)
    ["memory_region", "protection_domain", "channel"] children
  have hviews : ∀ e ∈ tagged "protection_domain" children,
      domainView decimal e = (domainView decimal (renamedIn name e)).showingAt name image := by
    intro e hmem
    obtain ⟨hmem, htag⟩ := List.mem_filter.mp hmem
    unfold Domain.showingAt renamedIn
    by_cases hname : e.get "name" = some name
    · have hdomain : isDomain name e = true := by
        unfold isDomain
        rw [htag, decide_eq_true hname]
        rfl
      have hpd : e ∈ children.filter (isDomain name) := List.mem_filter.mpr ⟨hmem, hdomain⟩
      rw [hdomains] at hpd
      obtain rfl := List.mem_singleton.mp hpd
      have hname' : (domainView decimal (withImage name e)).name = some name := hname
      rw [if_pos hdomain, if_pos hname']
      exact domainView_withImage hfound hshape
    · have hdomain : isDomain name e = false := by
        unfold isDomain
        rw [decide_eq_false hname, Bool.and_false]
      rw [hdomain]
      exact (if_neg hname).symm
  unfold grants Grants.mapDomains
  simp only [hsame "memory_region" (by decide), hsame "channel" (by decide), hothers,
    tagged_map (renamedIn_tag name), Multiset.map_coe, List.map_map]
  rw [List.map_congr_left hviews]
  rfl

end

/-! ### The graph of every profile -/

section

variable {decimal : Char → Option ℕ}

theorem adminTestBase_ok {interactive : Bool} {root out : Element} :
    adminTestBase interactive root = .ok out ↔
      ∃ rest rest' rest'', takeAll (additions interactive) root.children = .ok rest ∧
        renameImage "terminal" (terminalImage interactive) rest = .ok rest' ∧
        renameImage "policy" "admin_policy.elf" rest' = .ok rest'' ∧
        out = root.withChildren rest'' := by
  unfold adminTestBase
  simp only [bind_ok, Except.ok.injEq]
  constructor
  · rintro ⟨rest, htake, rest', hterminal, rest'', hpolicy, rfl⟩
    exact ⟨rest, rest', rest'', htake, hterminal, hpolicy, rfl⟩
  · rintro ⟨rest, rest', rest'', htake, hterminal, hpolicy, rfl⟩
    exact ⟨rest, htake, rest', hterminal, rest'', hpolicy, rfl⟩

/-- What an accepted tree of a signed image grants: the additions, and what the terminal's grants
with the two images of the signed image. -/
def grantsSigned (decimal : Char → Option ℕ) (interactive : Bool) : Grants :=
  (grants decimal (additions interactive)).both <|
    ((grantsBase true).mapDomains (Domain.showingAt "policy" "admin_policy.elf")).mapDomains
      (Domain.showingAt "terminal" (terminalImage interactive))

/-- What an accepted tree of a profile grants. -/
def grantsOf (decimal : Char → Option ℕ) : Profile → Grants
  | .seed => grantsBase false
  | .terminal => grantsBase true
  | .adminTest => grantsSigned decimal false
  | .interactive => grantsSigned decimal true

theorem view_signed {interactive : Bool} {root : Element}
    (h : (adminTestBase interactive root).bind (checkBase decimal true) = .ok ()) :
    view decimal root = ⟨"system", fun _ => none, grantsSigned decimal interactive⟩ := by
  obtain ⟨out, hbase, hcheck⟩ := bind_ok.mp h
  obtain ⟨rest, rest', rest'', htake, hterminal, hpolicy, rfl⟩ := adminTestBase_ok.mp hbase
  have hview := view_base (checkBase_ok.mp hcheck)
  obtain ⟨htag, hget, hgrants⟩ := View.mk.inj hview
  have hsigned : grants decimal root.children = grantsSigned decimal interactive := by
    calc grants decimal root.children
        = (grants decimal (additions interactive)).both (grants decimal rest) :=
          grants_takeAll htake
      _ = (grants decimal (additions interactive)).both ((grants decimal rest').mapDomains
            (Domain.showingAt "terminal" (terminalImage interactive))) := by
          rw [grants_renameImage hterminal]
      _ = (grants decimal (additions interactive)).both (((grants decimal rest'').mapDomains
            (Domain.showingAt "policy" "admin_policy.elf")).mapDomains
              (Domain.showingAt "terminal" (terminalImage interactive))) := by
          rw [grants_renameImage hpolicy]
      _ = grantsSigned decimal interactive := by
          rw [grantsSigned, ← hgrants]
          rfl
  have htag' : root.tag = "system" := htag
  have hget' : root.get = fun _ => none := hget
  unfold view
  rw [htag', hget', hsigned]

/-- **An accepted tree grants what its profile says.** -/
theorem view_accepted {profile : Profile} {root : Element}
    (h : validate decimal profile root = .ok ()) :
    view decimal root = ⟨"system", fun _ => none, grantsOf decimal profile⟩ := by
  cases profile with
  | seed => exact view_base (checkBase_ok.mp h)
  | terminal => exact view_base (checkBase_ok.mp h)
  | adminTest => exact view_signed h
  | interactive => exact view_signed h

theorem BaseOk.perm {terminal : Bool} {root : Element} {children : List Element}
    (h : BaseOk decimal terminal root) (hperm : children.Perm root.children) :
    BaseOk decimal terminal (root.withChildren children) := by
  have hfindall : ∀ tag, ((root.withChildren children).findall tag).Perm (root.findall tag) :=
    fun tag => hperm.filter _
  obtain ⟨htext, htail, hbare⟩ := (Element.bare_iff root).mp h.bare
  refine ⟨h.tag, h.attrib, fun c hc => h.tags c (hperm.mem_iff.mp hc),
    (Element.bare_iff _).mpr ⟨htext, htail, fun c hc => hbare c (hperm.mem_iff.mp hc)⟩, ?_, ?_,
    ((hfindall _).map _).trans h.names, ?_, ((hfindall _).map _).trans h.edges⟩
  · intro hterminal
    obtain ⟨region, hregion, hleaf⟩ := h.regions hterminal
    have hsingle := hfindall "memory_region"
    rw [hregion] at hsingle
    exact ⟨region, List.perm_singleton.mp hsingle, hleaf⟩
  · exact fun pd hmem => h.domains pd ((hfindall _).mem_iff.mp hmem)
  · exact fun channel hmem => h.channels channel ((hfindall _).mem_iff.mp hmem)

theorem adminTestBase_perm {interactive : Bool} {root out : Element} {children : List Element}
    (hperm : children.Perm root.children) (h : adminTestBase interactive root = .ok out) :
    ∃ children', children'.Perm out.children ∧
      adminTestBase interactive (root.withChildren children) =
        .ok (out.withChildren children') := by
  obtain ⟨rest, rest', rest'', htake, hterminal, hpolicy, rfl⟩ := adminTestBase_ok.mp h
  obtain ⟨left, htake, hleft⟩ := takeAll_perm hperm.symm htake
  obtain ⟨left', hterminal, hleft'⟩ := renameImage_perm hleft hterminal
  obtain ⟨left'', hpolicy, hleft''⟩ := renameImage_perm hleft' hpolicy
  exact ⟨left'', hleft''.symm,
    adminTestBase_ok.mpr ⟨left, left', left'', htake, hterminal, hpolicy, rfl⟩⟩

/-- **The order of the root's children does not matter.** -/
theorem validate_perm {profile : Profile} {root : Element} {children : List Element}
    (hperm : children.Perm root.children) (h : validate decimal profile root = .ok ()) :
    validate decimal profile (root.withChildren children) = .ok () := by
  have hbase : ∀ {terminal : Bool} {root : Element} {children : List Element},
      children.Perm root.children → checkBase decimal terminal root = .ok () →
        checkBase decimal terminal (root.withChildren children) = .ok () :=
    fun hperm h => checkBase_ok.mpr ((checkBase_ok.mp h).perm hperm)
  have hsigned : ∀ {interactive : Bool},
      (adminTestBase interactive root).bind (checkBase decimal true) = .ok () →
        (adminTestBase interactive (root.withChildren children)).bind (checkBase decimal true) =
          .ok () := by
    intro interactive h
    obtain ⟨out, hout, hcheck⟩ := bind_ok.mp h
    obtain ⟨children', hperm', hout'⟩ := adminTestBase_perm hperm hout
    exact bind_ok.mpr ⟨_, hout', hbase hperm' hcheck⟩
  cases profile with
  | seed => exact hbase hperm h
  | terminal => exact hbase hperm h
  | adminTest => exact hsigned h
  | interactive => exact hsigned h

set_option maxRecDepth 100000 in
theorem validate_shipped (decimal : Char → Option ℕ) (profile : Profile) :
    validate decimal profile (shipped profile) = .ok () := by
  cases profile <;> rfl

end

/-! ### Channels of every profile -/

/-- The profile has a terminal. -/
def Profile.hasTerminal : Profile → Bool
  | .seed => false
  | _ => true

/-- The calls that a signed image adds: `edges` of `admin_test_base`. -/
def signedEdges (interactive : Bool) : List Edge :=
  [(("terminal", "2"), ("administrator", "0")), (("administrator", "2"), ("policy", "0")),
    (("administrator", "1"), (bootName interactive, "0"))] ++
  if interactive then [] else [(("terminal", "3"), ("test_boot", "1"))]

/-- The calls of a profile. -/
def edgesOf : Profile → List Edge
  | .seed => expectedEdges false
  | .terminal => expectedEdges true
  | .adminTest => signedEdges false ++ expectedEdges true
  | .interactive => signedEdges true ++ expectedEdges true

section

variable {decimal : Char → Option ℕ}

/-- A channel that is wanted shows its call, if the call is not the serial domain's. -/
theorem channelView_wanted {e : Edge} (hcaller : e.1.1 ≠ "serial") (hcallee : e.2.1 ≠ "serial") :
    channelView (wantedChannel e.1.1 e.1.2 e.2.1 e.2.2) = channelOf true e := by
  have hnotify : ∀ slot : Slot, slot.1 ≠ "serial" → notifyOf true slot = "false" := by
    intro slot hslot
    refine if_neg fun h => hslot ?_
    have hserial : slot = ("serial", "1") := by simpa using h
    rw [hserial]
  have hfurther : ∀ attrib : List (String × String),
      (∀ k ∈ attrib.map Prod.fst, k ∈ ["pd", "id", "pp", "notify"]) →
        further (plain "end" attrib []) ["pd", "id", "pp", "notify"] = ∅ := by
    intro attrib hkeys
    refine Set.eq_empty_of_forall_notMem ?_
    rintro k ⟨hk, hget⟩
    exact hk (hkeys k (mem_keys_iff.mpr hget))
  have hends :
      [endView (plain "end"
        [("pd", e.1.1), ("id", e.1.2), ("pp", "true"), ("notify", "false")] []),
      endView (plain "end" [("pd", e.2.1), ("id", e.2.2), ("notify", "false")] [])] =
      [endOf true e.1 "true", endOf true e.2 "false"] := by
    unfold endView endOf
    rw [hnotify _ hcaller, hnotify _ hcallee, hfurther _ (by simp), hfurther _ (by simp)]
    rfl
  unfold channelView channelOf
  refine congrArg₂ (fun ends others => Channel.mk (fun _ => none) ends others) ?_ rfl
  exact congrArg (fun ends : List End => (ends : Multiset End)) hends

theorem channels_additions (interactive : Bool) :
    (grants decimal (additions interactive)).channels =
      ((signedEdges interactive).map (channelOf true) : List Channel) := by
  have hwanted : tagged "channel" (additions interactive) =
      (signedEdges interactive).map fun e => wantedChannel e.1.1 e.1.2 e.2.1 e.2.2 := by
    cases interactive <;> rfl
  have hserial : ∀ e ∈ signedEdges interactive, e.1.1 ≠ "serial" ∧ e.2.1 ≠ "serial" := by
    cases interactive <;> decide
  unfold grants
  rw [hwanted, List.map_map]
  refine congrArg (fun channels : List Channel => (channels : Multiset Channel)) ?_
  exact List.map_congr_left fun e hmem => channelView_wanted (hserial e hmem).1 (hserial e hmem).2

theorem channels_grantsOf (profile : Profile) :
    (grantsOf decimal profile).channels =
      ((edgesOf profile).map (channelOf profile.hasTerminal) : List Channel) := by
  have hsigned : ∀ interactive : Bool, (grantsSigned decimal interactive).channels =
      ((signedEdges interactive ++ expectedEdges true).map (channelOf true) : List Channel) := by
    intro interactive
    have hadditions : (grants decimal (additions interactive)).channels =
        ((signedEdges interactive).map (channelOf true) : List Channel) :=
      channels_additions interactive
    rw [List.map_append, ← Multiset.coe_add, ← hadditions]
    rfl
  cases profile with
  | seed => rfl
  | terminal => rfl
  | adminTest => exact hsigned false
  | interactive => exact hsigned true

theorem edges_apart (profile : Profile) :
    ∀ e ∈ edgesOf profile, "terminal" ∈ [e.1.1, e.2.1] → "policy" ∉ [e.1.1, e.2.1] := by
  cases profile <;> decide

/-- No channel of an accepted tree has an end at the terminal and one at the policy. -/
theorem terminal_apart {profile : Profile} {root : Element}
    (h : validate decimal profile root = .ok ()) :
    ∀ channel ∈ root.findall "channel", ∀ e ∈ channel.findall "end", ∀ e' ∈ channel.findall "end",
      e.get "pd" = some "terminal" → e'.get "pd" ≠ some "policy" := by
  intro channel hchannel e he e' he' hterminal hpolicy
  have hmem : channelView channel ∈ (view decimal root).grants.channels :=
    Multiset.mem_coe.mpr (List.mem_map_of_mem hchannel)
  rw [view_accepted h] at hmem
  obtain ⟨edge, hedge, hview⟩ :=
    List.mem_map.mp (Multiset.mem_coe.mp (channels_grantsOf profile ▸ hmem))
  have hpd : ∀ e ∈ channel.findall "end", ∀ name, e.get "pd" = some name →
      name ∈ [edge.1.1, edge.2.1] := by
    intro e he name hname
    have hend : endView e ∈ (channelView channel).ends :=
      Multiset.mem_coe.mpr (List.mem_map_of_mem he)
    have hpd : (endView e).pd = some name := hname
    rw [← hview, channelOf, Multiset.insert_eq_cons, Multiset.mem_cons,
      Multiset.mem_singleton] at hend
    rcases hend with heq | heq
    · rw [heq] at hpd
      exact List.mem_cons.mpr (Or.inl (Option.some.inj hpd).symm)
    · rw [heq] at hpd
      exact List.mem_cons_of_mem _ (List.mem_singleton.mpr (Option.some.inj hpd).symm)
  exact edges_apart profile edge hedge (hpd e he _ hterminal) (hpd e' he' _ hpolicy)

/-- **The checker accepts exactly the fixed authority graph.** A tree that it accepts grants what the
shipped description of the profile grants, and the shipped description is accepted with its children
in any order. In no tree that it accepts the terminal has a channel to the policy. -/
theorem validate_exact (decimal : Char → Option ℕ) (profile : Profile) :
    (∀ root, validate decimal profile root = .ok () →
      view decimal root = view decimal (shipped profile)) ∧
    (∀ children : List Element, children.Perm (shipped profile).children →
      validate decimal profile ((shipped profile).withChildren children) = .ok ()) ∧
    ∀ root, validate decimal profile root = .ok () →
      ∀ channel ∈ root.findall "channel", ∀ e ∈ channel.findall "end", ∀ e' ∈ channel.findall "end",
        e.get "pd" = some "terminal" → e'.get "pd" ≠ some "policy" := by
  refine ⟨fun root h => ?_, fun children hperm => ?_, fun root h => terminal_apart h⟩
  · rw [view_accepted h, view_accepted (validate_shipped decimal profile)]
  · exact validate_perm hperm (validate_shipped decimal profile)

end

set_option maxRecDepth 100000 in
/-- A channel from the terminal to the policy is refused, on slots that are free. -/
example :
    validate (fun _ => none) .interactive ((shipped .interactive).withChildren
      (lineChannel "terminal" "3" "policy" "3" "false" :: (shipped .interactive).children)) =
      .error "unexpected authority path or channel identity" := by
  rfl

end Topology
end Tcs
