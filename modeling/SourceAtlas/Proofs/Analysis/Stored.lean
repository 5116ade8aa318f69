import SourceAtlas.Analysis.Result
import SourceAtlas.Proofs.Clock.Timestamp
import SourceAtlas.Proofs.Graph.Order
import SourceAtlas.Proofs.Json.Depth
import SourceAtlas.Proofs.Json.RoundTrip

namespace SourceAtlas

open Json (Value Decode)

namespace Json.Decode

theorem fields_known {names : List String} {ps : List (String × Value)}
    (hk : ∀ p ∈ ps, p.1 ∈ names) (hn : (ps.map (·.1)).Nodup) :
    fields names (.object ps) = some ps := by
  have hf : (ps.filter fun p => names.contains p.1) = ps :=
    List.filter_eq_self.mpr fun p hp => by simpa using hk p hp
  show (if ((ps.filter fun p => names.contains p.1).map (·.1)).Nodup then
    some (ps.filter fun p => names.contains p.1) else none) = some ps
  rw [hf, if_pos hn]

theorem texts_reads (ss : List String) :
    Reads (list text) Value.texts (fun _ => True) ss := by
  intro n
  rw [Value.texts, list_reads (fun s _ => text_reads s) n]
  simp

end Json.Decode

open Json.Decode

namespace Component

theorem kind_reads (k : ComponentKind) (n : Nat) : word kinds n (.text (kindText k)) = some k := by
  cases k <;> rfl

theorem depth_toJson (c : Component) :
    c.toJson.depth = max (Value.texts c.hooks).depth (Value.texts c.props).depth + 1 := by
  simp [toJson, Value.depth, Value.pairsDepth]

theorem ofJson_toJson (c : Component) (n : Nat) :
    ofJson (n + 2) c.toJson = (list text (n + 1) (.texts c.hooks)).bind fun hooks =>
      (list text (n + 1) (.texts c.props)).bind fun props =>
        some ⟨c.name, c.filePath, c.kind, hooks, props⟩ := by
  have hfields : fields fieldNames c.toJson = some _ :=
    fields_known (by simp [fieldNames]) (by decide : fieldNames.Nodup)
  rw [ofJson, hfields]
  simp [required, defaulted, kind_reads, text, List.lookup_cons]

theorem ofJson_reads (c : Component) : Reads ofJson toJson (fun _ => True) c := by
  intro n
  rw [depth_toJson]
  cases n with
  | zero => exact ⟨fun h => (by cases h), fun h => absurd h.1 (by omega)⟩
  | succ n =>
      rw [ofJson_toJson, Nat.succ_le_succ_iff, Nat.max_le, and_assoc, ← texts_reads c.props n,
        ← and_true (_ ≤ n), ← texts_reads c.hooks n]
      constructor
      · intro h
        obtain ⟨hooks, hh, h⟩ := Option.bind_eq_some_iff.mp h
        obtain ⟨props, hp, h⟩ := Option.bind_eq_some_iff.mp h
        have he := Option.some.inj h
        have hhooks : hooks = c.hooks := congrArg Component.hooks he
        have hprops : props = c.props := congrArg Component.props he
        exact ⟨hhooks ▸ hh, hprops ▸ hp⟩
      · rintro ⟨hh, hp⟩
        rw [hh, hp]
        rfl

end Component

namespace Project.FileNode

mutual

def IsSized : FileNode → Prop
  | .mk _ _ _ size _ children => (∀ n ∈ size, n ≤ Settings.wordMax) ∧ ChildrenSized children

def ChildrenSized : Option (List FileNode) → Prop
  | none => True
  | some ns => ListSized ns

def ListSized : List FileNode → Prop
  | [] => True
  | n :: r => IsSized n ∧ ListSized r

end

theorem listSized_iff {ns : List FileNode} : ListSized ns ↔ ∀ n ∈ ns, n.IsSized := by
  induction ns with
  | nil => simp [ListSized]
  | cons n r ih => simp [ListSized, ih]

theorem listToJson_eq (ns : List FileNode) : listToJson ns = ns.map toJson := by
  induction ns with
  | nil => rfl
  | cons n r ih => rw [listToJson, ih, List.map_cons]

def pairs (name path : String) (kind : FileKind) (size : Option Nat) (extension : Option String)
    (children : Option Value) : List (String × Value) :=
  [("name", .text name), ("path", .text path), ("type", .text kind.text)] ++
    optionalField "size" (size.map .natural) ++
    optionalField "extension" (extension.map .text) ++ optionalField "children" children

section

variable (name path : String) (kind : FileKind) (size : Option Nat) (extension : Option String)
  (children : Option Value)

theorem fields_pairs : fields fieldNames (.object (pairs name path kind size extension children)) =
    some (pairs name path kind size extension children) := by
  refine fields_known ?_ ?_
  · cases size <;> cases extension <;> cases children <;>
      simp [pairs, optionalField, fieldNames]
  · cases size <;> cases extension <;> cases children <;> simp [pairs, optionalField]

theorem lookup_children :
    (pairs name path kind size extension children).lookup "children" = children := by
  cases size <;> cases extension <;> cases children <;> simp [pairs, optionalField, List.lookup_cons]

theorem lookup_size :
    (pairs name path kind size extension children).lookup "size" = size.map .natural := by
  cases size <;> cases extension <;> cases children <;> simp [pairs, optionalField, List.lookup_cons]

theorem lookup_extension :
    (pairs name path kind size extension children).lookup "extension" = extension.map .text := by
  cases size <;> cases extension <;> cases children <;> simp [pairs, optionalField, List.lookup_cons]

theorem depth_pairs : Value.pairsDepth (pairs name path kind size extension children) =
    (children.map Value.depth).getD 0 := by
  cases size <;> cases extension <;> cases children <;>
    simp [pairs, optionalField, Value.pairsDepth, Value.depth, Value.natural]

theorem kind_reads (n : Nat) : word fileKinds n (.text kind.text) = some kind := by
  cases kind <;> rfl

theorem size_reads (n : Nat) : defaulted (optional (natural Settings.wordMax)) none (n + 1)
    (pairs name path kind size extension children) "size" = some size ↔
      ∀ k ∈ size, k ≤ Settings.wordMax := by
  rw [defaulted, lookup_size]
  cases size with
  | none => simp
  | some k =>
      show (natural Settings.wordMax (n + 1) (.integer (Int.ofNat k))).map some = some (some k) ↔ _
      simp [natural]

theorem extension_reads (n : Nat) : defaulted (optional text) none (n + 1)
    (pairs name path kind size extension children) "extension" = some extension := by
  rw [defaulted, lookup_extension]
  cases extension <;> rfl

end

def childrenOf (depth : Nat) : Option Value → Option (Option (List FileNode))
  | none | some .null => some none
  | some (.array vs) => if depth = 0 then none else (vs.mapM (ofJson depth)).map some
  | some _ => none

section

variable (name path : String) (kind : FileKind) (size : Option Nat) (extension : Option String)
  (children : Option Value) (n : Nat)

theorem ofJson_object : ofJson (n + 2) (.object (pairs name path kind size extension children)) =
    (childrenOf n children).bind fun below =>
      (defaulted (optional (natural Settings.wordMax)) none (n + 1)
        (pairs name path kind size extension children) "size").bind fun size =>
          some (.mk name path kind size extension below) := by
  have hname : required text (n + 1) (pairs name path kind size extension children) "name" =
    some name := rfl
  have hpath : required text (n + 1) (pairs name path kind size extension children) "path" =
    some path := rfl
  have hkind : required (word fileKinds) (n + 1) (pairs name path kind size extension children)
    "type" = some kind := kind_reads kind (n + 1)
  rw [ofJson, fields_pairs, Option.bind_eq_bind, Option.bind_some, lookup_children]
  simp only [hname, hpath, hkind, extension_reads, Option.bind_eq_bind, Option.bind_some]
  cases children with
  | none => rfl
  | some v =>
      cases v with
      | array vs =>
          dsimp only [childrenOf]
          split <;> rfl
      | _ => rfl

theorem ofJson_pairs (below : Option (List FileNode)) :
    ofJson (n + 2) (.object (pairs name path kind size extension children)) =
      some (.mk name path kind size extension below) ↔
    childrenOf n children = some below ∧ ∀ k ∈ size, k ≤ Settings.wordMax := by
  rw [ofJson_object, ← size_reads name path kind size extension children n]
  constructor
  · intro h
    obtain ⟨below', hb, h⟩ := Option.bind_eq_some_iff.mp h
    obtain ⟨size', hs, h⟩ := Option.bind_eq_some_iff.mp h
    injection Option.some.inj h with _ _ _ hsize _ hbelow
    rw [hsize] at hs
    rw [hbelow] at hb
    exact ⟨hb, hs⟩
  · rintro ⟨hb, hs⟩
    rw [hb, Option.bind_some, hs, Option.bind_some]

end

mutual

theorem ofJson_reads : (node : FileNode) → Reads ofJson toJson IsSized node
  | .mk name path kind size extension none => by
      intro n
      have hdepth : (toJson (.mk name path kind size extension none)).depth = 1 :=
        congrArg Nat.succ (depth_pairs name path kind size extension none)
      cases n with
      | zero => exact ⟨fun h => (by cases h), fun h => absurd h.1 (by omega)⟩
      | succ n =>
          refine (ofJson_pairs name path kind size extension none n none).trans ?_
          rw [hdepth, childrenOf, IsSized, ChildrenSized]
          simp
  | .mk name path kind size extension (some ns) => by
      intro n
      have hreads := listToJson_reads ns
      have hdepth : (toJson (.mk name path kind size extension (some ns))).depth =
          Value.itemsDepth (listToJson ns) + 2 :=
        congrArg Nat.succ (depth_pairs name path kind size extension _)
      cases n with
      | zero => exact ⟨fun h => (by cases h), fun h => absurd h.1 (by omega)⟩
      | succ n =>
          refine (ofJson_pairs name path kind size extension _ n (some ns)).trans ?_
          rw [hdepth, childrenToJson, childrenOf, IsSized, ChildrenSized, listSized_iff]
          cases n with
          | zero => exact ⟨fun h => absurd h.1 (by simp), fun h => absurd h.1 (by omega)⟩
          | succ n =>
              have hdeep : Value.itemsDepth (listToJson ns) + 2 ≤ n + 1 + 1 ↔
                  ∀ node ∈ ns, node.toJson.depth ≤ n := by
                rw [Nat.succ_le_succ_iff, Nat.succ_le_succ_iff, Value.itemsDepth_le, listToJson_eq,
                  List.forall_mem_map]
              have hitems : (listToJson ns).mapM (ofJson (n + 1)) = some ns ↔
                  ∀ node ∈ ns, node.toJson.depth ≤ n ∧ node.IsSized := by
                rw [listToJson_eq, mapM_map]
                exact forall₂_congr fun node hm => hreads node hm n
              rw [if_neg (Nat.succ_ne_zero n), hdeep, Option.map_eq_some_iff]
              simp only [Option.some.injEq, exists_eq_right, hitems, forall₂_and]
              exact ⟨fun h => ⟨h.1.1, h.2, h.1.2⟩, fun h => ⟨⟨h.1, h.2.2⟩, h.2.1⟩⟩

theorem listToJson_reads : (ns : List FileNode) → ∀ n ∈ ns, Reads ofJson toJson IsSized n
  | [] => nofun
  | n :: r => by
      intro m hm
      rcases List.mem_cons.mp hm with hm | hm
      · exact hm ▸ ofJson_reads n
      · exact listToJson_reads r m hm

end

end Project.FileNode

namespace Graph

theorem ofJson_reads {g : Graph} (hg : g.IsSorted) : Reads ofJson toJson (fun _ => True) g := by
  intro n
  have hmap := map_reads (fun p (_ : p ∈ g) => texts_reads p.2) n
  constructor
  · intro h
    obtain ⟨ps, hp, _⟩ := Option.map_eq_some_iff.mp h
    exact ⟨map_depthBounded (list_depthBounded text_depthBounded) hp, trivial⟩
  · rintro ⟨hd, _⟩
    have hread : map (list text) (n + 1) g.toJson = some g := hmap.mpr ⟨hd, fun _ _ => trivial⟩
    rw [ofJson, hread, Option.map_some, ofList_of_sorted hg]

end Graph

namespace Analysis

/-- The time is one that a calendar has, and every size one that a word can hold. -/
structure IsInRange (a : Analysis) : Prop where
  early : Date.firstYear ≤ a.timestamp.date.year
  late : a.timestamp.date.year ≤ Date.lastYear
  sizes : ∀ n ∈ a.listing, n.IsSized

theorem depth_toJson (a : Analysis) : a.toJson.depth =
    max (Value.array (a.listing.map Project.FileNode.toJson)).depth
      (max a.dependencies.toJson.depth
        (Value.array (a.components.map Component.toJson)).depth) + 1 := by
  simp [toJson, Value.depth, Value.pairsDepth, Project.FileNode.listToJson_eq]

theorem ofJson_toJson (a : Analysis) (n : Nat) : ofJson (n + 2) a.toJson =
    (Timestamp.ofText? (a.timestamp.text zoneMark)).bind fun t =>
      (list Project.FileNode.ofJson (n + 1)
        (.array (a.listing.map Project.FileNode.toJson))).bind fun listing =>
      (Graph.ofJson (n + 1) a.dependencies.toJson).bind fun g =>
      (list Component.ofJson (n + 1) (.array (a.components.map Component.toJson))).bind
        fun cs => some ⟨a.projectId, t, listing, g, cs⟩ := by
  have hfields : fields fieldNames a.toJson = some _ :=
    fields_known (by simp [fieldNames]) (by decide : fieldNames.Nodup)
  rw [ofJson, hfields]
  simp [required, text, timestampOf, List.lookup_cons, Project.FileNode.listToJson_eq]

theorem ofJson_reads {a : Analysis} {now : Int} (hg : a.dependencies.IsSorted)
    (hnow : a.timestamp = .ofNanos now) : Reads ofJson toJson IsInRange a := by
  intro n
  have htime : Timestamp.ofText? (a.timestamp.text zoneMark) = some a.timestamp ↔
      Date.firstYear ≤ a.timestamp.date.year ∧ a.timestamp.date.year ≤ Date.lastYear := by
    rw [hnow]
    exact Timestamp.ofText_ofNanos now
  rw [depth_toJson]
  cases n with
  | zero => exact ⟨fun h => (by cases h), fun h => absurd h.1 (by omega)⟩
  | succ n =>
      have hlisting := list_reads
        (fun node (_ : node ∈ a.listing) => Project.FileNode.ofJson_reads node) n
      have hgraph := Graph.ofJson_reads hg n
      have hcomponents := list_reads (fun c (_ : c ∈ a.components) => c.ofJson_reads) n
      rw [ofJson_toJson, Nat.succ_le_succ_iff, Nat.max_le, Nat.max_le]
      constructor
      · intro h
        obtain ⟨t, ht, h⟩ := Option.bind_eq_some_iff.mp h
        obtain ⟨listing, hl, h⟩ := Option.bind_eq_some_iff.mp h
        obtain ⟨g, hd, h⟩ := Option.bind_eq_some_iff.mp h
        obtain ⟨cs, hc, h⟩ := Option.bind_eq_some_iff.mp h
        have he := Option.some.inj h
        rw [show t = a.timestamp from congrArg Analysis.timestamp he] at ht
        rw [show listing = a.listing from congrArg Analysis.listing he] at hl
        rw [show g = a.dependencies from congrArg Analysis.dependencies he] at hd
        rw [show cs = a.components from congrArg Analysis.components he] at hc
        obtain ⟨hld, hls⟩ := hlisting.mp hl
        obtain ⟨hearly, hlate⟩ := htime.mp ht
        exact ⟨⟨hld, (hgraph.mp hd).1, (hcomponents.mp hc).1⟩, ⟨hearly, hlate, hls⟩⟩
      · rintro ⟨⟨hl, hd, hc⟩, hearly, hlate, hs⟩
        rw [htime.mpr ⟨hearly, hlate⟩, hlisting.mpr ⟨hl, hs⟩, hgraph.mpr ⟨hd, trivial⟩,
          hcomponents.mpr ⟨hc, fun _ _ => trivial⟩]
        rfl

end Analysis

theorem Component.toJson_plain (c : Component) : c.toJson.IsPlain :=
  ⟨trivial, trivial, trivial, Value.texts_plain c.hooks, Value.texts_plain c.props, trivial⟩

theorem Graph.toJson_plain (g : Graph) : g.toJson.IsPlain :=
  Value.plainPairs_iff.mpr (List.forall_mem_map.mpr fun e _ => Value.texts_plain e.2)

namespace Project.FileNode

theorem pairs_plain (name path : String) (kind : FileKind) (size : Option Nat)
    (extension : Option String) {children : Option Value} (h : ∀ v ∈ children, v.IsPlain) :
    (Value.object (pairs name path kind size extension children)).IsPlain := by
  refine Value.plainPairs_iff.mpr fun p hp => ?_
  simp only [pairs, List.mem_append] at hp
  rcases hp with ((hp | hp) | hp) | hp
  · simp only [List.mem_cons, List.not_mem_nil, or_false] at hp
    rcases hp with rfl | rfl | rfl <;> trivial
  · cases size with
    | none => cases hp
    | some n => rw [List.mem_singleton.mp hp]; trivial
  · cases extension with
    | none => cases hp
    | some e => rw [List.mem_singleton.mp hp]; trivial
  · cases children with
    | none => cases hp
    | some v => rw [List.mem_singleton.mp hp]; exact h v rfl

mutual

theorem toJson_plain : (node : FileNode) → node.toJson.IsPlain
  | .mk name path kind size extension none => pairs_plain name path kind size extension nofun
  | .mk name path kind size extension (some ns) =>
      pairs_plain name path kind size extension fun v hv => by
        cases hv
        exact listToJson_plain ns

theorem listToJson_plain : (ns : List FileNode) → Value.PlainItems (listToJson ns)
  | [] => trivial
  | n :: r => ⟨toJson_plain n, listToJson_plain r⟩

end

end Project.FileNode

namespace Analysis

theorem toJson_plain (a : Analysis) : a.toJson.IsPlain :=
  ⟨trivial, trivial, Project.FileNode.listToJson_plain a.listing, a.dependencies.toJson_plain,
    Value.plainItems_iff.mpr (List.forall_mem_map.mpr fun c _ => c.toJson_plain), trivial⟩

theorem ofBytes_iff {a : Analysis} {now : Int} (hg : a.dependencies.IsSorted)
    (hnow : a.timestamp = .ofNanos now) : ofBytes? a.toJson.indentedText.toUTF8 = some a ↔
      a.toJson.depth < Json.depthLimit ∧ a.IsInRange := by
  rw [ofBytes?, Json.ofBytes_indentedText a.toJson_plain, Option.bind_some]
  exact (ofJson_reads hg hnow 127).trans (and_congr_left' Nat.lt_succ_iff.symm)

end Analysis

end SourceAtlas
