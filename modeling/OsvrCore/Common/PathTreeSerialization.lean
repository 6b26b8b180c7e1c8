/-
# The path tree as JSON

A node is written as an object with the fields of its element, its full path and
the name of its element type. Reading the list back in order restores the tree:
the lookups create the nodes in the order in which they were written.
-/

import OsvrCore.Common.PathParseAndRetrieve

set_option autoImplicit false

namespace OSVR.Common

open Math

/-! ## Elements -/

namespace PathElement

/-- The fields that `serializationDescription` names, with their values. -/
def fields : PathElement → List (Str × Json)
  | deviceElement deviceName server descriptor =>
      [("device_name".toList, .str deviceName), ("server".toList, .str server),
        ("descriptor".toList, descriptor)]
  | aliasElement source priority =>
      [("source".toList, .str source), ("priority".toList, .int priority.toNat)]
  | stringElement value => [("string".toList, .str value)]
  | nullElement | sensorElement | interfaceElement | pluginElement => []

/-- `pathElementToJson`: the members of the object it returns. -/
def toJson (element : PathElement) : List (Str × Json) :=
  element.fields.foldl (fun members field => Json.insertMember field.1 field.2 members) []

end PathElement

namespace PathElementFromJson

/-- A member that has to be there. -/
def require (name : Str) (val : Json) : Except TreeError Json := do
  match ← (val.member? name).mapError .json with
  | some member => return member
  | none => throw (.missingMember name)

def string (codec : JsonCodec) (name : Str) (val : Json) : Except TreeError Str := do
  ((← require name val).asString codec).mapError .json

/-- A JSON value, given as it is or as a string to parse; a string that does not
parse leaves the default. -/
def json (codec : JsonCodec) (name : Str) (val : Json) : Except TreeError Json := do
  match ← require name val with
  | .str text => return (codec.parse text).getD .null
  | nested => return nested

def priority (name : Str) (val : Json) : Except TreeError AliasPriority := do
  return UInt8.ofInt (← ((← require name val).asInt).mapError .json)

end PathElementFromJson

open PathElementFromJson in
/-- `DeserializeElementFunctor` over the type list: an unknown type name gives a
null element. -/
def deserializeElement (codec : JsonCodec) (typeName : Str) (val : Json) :
    Except TreeError PathElement :=
  if typeName = "AliasElement".toList then do
    return .aliasElement (← string codec "source".toList val) (← priority "priority".toList val)
  else if typeName = "SensorElement".toList then return .sensorElement
  else if typeName = "InterfaceElement".toList then return .interfaceElement
  else if typeName = "DeviceElement".toList then do
    return .deviceElement (← string codec "device_name".toList val)
      (← string codec "server".toList val) (← json codec "descriptor".toList val)
  else if typeName = "PluginElement".toList then return .pluginElement
  else if typeName = "StringElement".toList then do
    return .stringElement (← string codec "string".toList val)
  else return .nullElement

/-- `jsonToPathElement`. -/
def jsonToPathElement (codec : JsonCodec) (val : Json) : Except TreeError PathElement := do
  let typeName ← (do (← val.index "type".toList).asString codec).mapError .json
  deserializeElement codec typeName val

/-! ## Trees -/

/-- `pathNodeToJson`. -/
def pathNodeToJson (node : NodePath) (value : PathElement) : Json :=
  .obj (Json.insertMember "type".toList (.str value.getTypeName)
    (Json.insertMember "path".toList (.str (getFullPath node)) value.toJson))

/-- What `pathTreeToJson` writes. -/
def keeps (keepNulls : Bool) (value : PathElement) : Bool := keepNulls || !value.isNull

/-- `pathTreeToJson`. -/
def pathTreeToJson (tree : PathTree) (keepNulls : Bool) : Json :=
  .arr ((tree.entries.filter fun entry => keeps keepNulls entry.2).map fun entry =>
    pathNodeToJson entry.1 entry.2)

/-- The body of the loop of `jsonToPathTree`. -/
def jsonToPathNode (codec : JsonCodec) (node : Json) : TreeProgram Unit := do
  let element ← Program.ofExcept (jsonToPathElement codec node)
  let path ← TreeProgram.ofJson (do (← node.index "path".toList).asString codec)
  let reached ← getNodeByPath path
  TreeProgram.setValue reached element

def jsonToPathNodes (codec : JsonCodec) : List Json → TreeProgram Unit
  | [] => pure ()
  | node :: rest => do
      jsonToPathNode codec node
      jsonToPathNodes codec rest

/-- `jsonToPathTree`. -/
def jsonToPathTree (codec : JsonCodec) (nodes : Json) : TreeProgram Unit :=
  jsonToPathNodes codec nodes.elements

/-! ## Round trip -/

/-- The descriptor is a JSON string, which reading would parse. -/
def PathElement.hasStringDescriptor : PathElement → Bool
  | deviceElement _ _ descriptor => descriptor.isString
  | nullElement | aliasElement _ _ | sensorElement | interfaceElement | pluginElement
  | stringElement _ => false

/-- What a descriptor is read as: a string is parsed. -/
def readDescriptor (codec : JsonCodec) : Json → Json
  | .str text => (codec.parse text).getD .null
  | nested => nested

/-- The element that is read for a written one. -/
def PathElement.readBack (codec : JsonCodec) : PathElement → PathElement
  | deviceElement deviceName server descriptor =>
      deviceElement deviceName server (readDescriptor codec descriptor)
  | nullElement => nullElement
  | aliasElement source priority => aliasElement source priority
  | sensorElement => sensorElement
  | interfaceElement => interfaceElement
  | pluginElement => pluginElement
  | stringElement value => stringElement value

theorem PathElement.readBack_of_hasStringDescriptor {codec : JsonCodec} {value : PathElement}
    (hvalue : value.hasStringDescriptor = false) : value.readBack codec = value := by
  cases value with
  | deviceElement deviceName server descriptor =>
      cases descriptor with
      | str text => simp [PathElement.hasStringDescriptor, Json.isString] at hvalue
      | null | bool _ | int _ | real _ | arr _ | obj _ => rfl
  | nullElement | aliasElement _ _ | sensorElement | interfaceElement | pluginElement
  | stringElement _ => rfl

theorem member?_pathNodeToJson (name : Str) (node : NodePath) (value : PathElement) :
    (pathNodeToJson node value).member? name =
      .ok (if name = "type".toList then some (.str value.getTypeName)
        else if name = "path".toList then some (.str (getFullPath node))
        else value.toJson.lookup name) := by
  simp [pathNodeToJson, Json.member?, Json.lookup_insertMember]

/-- A field of the element is found in the written node. -/
theorem require_pathNodeToJson {name : Str} {node : NodePath} {value : PathElement} {field : Json}
    (htype : name ≠ "type".toList) (hpath : name ≠ "path".toList)
    (hfield : value.toJson.lookup name = some field) :
    PathElementFromJson.require name (pathNodeToJson node value) = .ok field := by
  rw [PathElementFromJson.require, member?_pathNodeToJson, if_neg htype, if_neg hpath, hfield]
  rfl

theorem index_type_pathNodeToJson (node : NodePath) (value : PathElement) :
    (pathNodeToJson node value).index "type".toList = .ok (.str value.getTypeName) := by
  rw [Json.index, member?_pathNodeToJson, if_pos rfl]
  rfl

theorem index_path_pathNodeToJson (node : NodePath) (value : PathElement) :
    (pathNodeToJson node value).index "path".toList = .ok (.str (getFullPath node)) := by
  rw [Json.index, member?_pathNodeToJson, if_neg (by decide), if_pos rfl]
  rfl

section Fields

variable (codec : JsonCodec) {name : Str} {val : Json}

open PathElementFromJson

theorem string_of_require {text : Str} (h : require name val = .ok (.str text)) :
    PathElementFromJson.string codec name val = .ok text := by
  rw [PathElementFromJson.string, h]
  rfl

theorem priority_of_require {value : AliasPriority}
    (h : require name val = .ok (.int value.toNat)) :
    PathElementFromJson.priority name val = .ok value := by
  have hrange : -2147483648 ≤ (value.toNat : Int) ∧ (value.toNat : Int) ≤ 2147483647 := by
    have := value.toNat_lt
    omega
  have hvalue : UInt8.ofInt value.toNat = value := by
    have := value.toNat_lt
    rw [← UInt8.toNat_inj, UInt8.ofInt, UInt8.toNat_ofNat']
    omega
  rw [PathElementFromJson.priority, h]
  show (do return UInt8.ofInt (← ((Json.int value.toNat).asInt).mapError TreeError.json)) = _
  rw [Json.asInt, if_pos hrange]
  exact congrArg Except.ok hvalue

theorem json_of_require {nested : Json} (h : require name val = .ok nested) :
    PathElementFromJson.json codec name val = .ok (readDescriptor codec nested) := by
  rw [PathElementFromJson.json, h]
  cases nested <;> rfl

end Fields

theorem deserializeElement_getTypeName (codec : JsonCodec) (node : NodePath) (value : PathElement) :
    deserializeElement codec value.getTypeName (pathNodeToJson node value) =
      .ok (value.readBack codec) := by
  have hrequire (name : Str) {field : Json} :=
    @require_pathNodeToJson name node value field
  generalize hval : pathNodeToJson node value = val at hrequire
  cases value with
  | nullElement => rfl
  | sensorElement => rfl
  | interfaceElement => rfl
  | pluginElement => rfl
  | aliasElement source priority =>
      have hsource := string_of_require codec
        (hrequire "source".toList (by decide) (by decide) rfl)
      have hpriority := priority_of_require
        (hrequire "priority".toList (by decide) (by decide) rfl)
      show (do
        return PathElement.aliasElement (← PathElementFromJson.string codec "source".toList val)
          (← PathElementFromJson.priority "priority".toList val)) = _
      rw [hsource, hpriority]
      rfl
  | stringElement text =>
      have htext := string_of_require codec
        (hrequire "string".toList (by decide) (by decide) rfl)
      show (do
        return PathElement.stringElement
          (← PathElementFromJson.string codec "string".toList val)) = _
      rw [htext]
      rfl
  | deviceElement deviceName server descriptor =>
      have hname := string_of_require codec
        (hrequire "device_name".toList (by decide) (by decide) rfl)
      have hserver := string_of_require codec
        (hrequire "server".toList (by decide) (by decide) rfl)
      have hdescriptor := json_of_require codec
        (hrequire "descriptor".toList (by decide) (by decide) rfl)
      show (do
        return PathElement.deviceElement
          (← PathElementFromJson.string codec "device_name".toList val)
          (← PathElementFromJson.string codec "server".toList val)
          (← PathElementFromJson.json codec "descriptor".toList val)) = _
      rw [hname, hserver, hdescriptor]
      rfl

/-- Reading a written node gives back its element. -/
theorem jsonToPathElement_pathNodeToJson (codec : JsonCodec) (node : NodePath)
    (value : PathElement) :
    jsonToPathElement codec (pathNodeToJson node value) = .ok (value.readBack codec) := by
  unfold jsonToPathElement
  rw [index_type_pathNodeToJson]
  exact deserializeElement_getTypeName codec node value

/-- Reading a written node sets its value in the tree. -/
theorem run_jsonToPathNode (codec : JsonCodec) (tree : PathTree) (node : NodePath)
    (value : PathElement) :
    (jsonToPathNode codec (pathNodeToJson node value)).run tree =
      (.ok (), tree.set node (value.readBack codec)) := by
  unfold jsonToPathNode
  rw [jsonToPathElement_pathNodeToJson codec node value, index_path_pathNodeToJson]
  have hpath :
      (TreeProgram.ofJson (do (← Except.ok (Json.str (getFullPath node))).asString codec)).run
      tree = (.ok (getFullPath node), tree) := rfl
  have hnode := run_getNodeByPath_getFullPath tree node
  have hset := tree.set_touch (List.prefix_refl node) (value.readBack codec)
  rw [Program.run_bind_of_ok (Program.run_ofExcept_ok tree _), Program.run_bind_of_ok hpath,
    Program.run_bind_of_ok hnode, ← hset]
  rfl

/-- Reading written nodes sets their values in order. -/
theorem run_jsonToPathNodes (codec : JsonCodec) (tree : PathTree)
    (entries : List (NodePath × PathElement)) :
    (jsonToPathNodes codec (entries.map fun entry => pathNodeToJson entry.1 entry.2)).run tree =
      (.ok (), tree.setAll (entries.map fun entry => (entry.1, entry.2.readBack codec))) := by
  induction entries generalizing tree with
  | nil => rfl
  | cons entry entries ih =>
      rw [List.map_cons, jsonToPathNodes,
        Program.run_bind_of_ok (run_jsonToPathNode codec tree entry.1 entry.2), ih]
      rfl

/-- Writing what was kept and leaving out what was not. -/
theorem pathTreeToJson_prune (tree : PathTree) (keepNulls : Bool) :
    pathTreeToJson (tree.prune (keeps keepNulls)) keepNulls = pathTreeToJson tree keepNulls := by
  cases keepNulls with
  | true => rw [tree.prune_of_keep (keeps true) fun _ => rfl]
  | false => rw [pathTreeToJson, tree.filter_entries_prune (keeps false) rfl, pathTreeToJson]

/-- A tree that is written as JSON and read into an empty tree is written as the
same JSON again, and with null elements written it is the same tree. -/
theorem jsonToPathTree_pathTreeToJson (codec : JsonCodec) (tree : PathTree)
    (hdescriptors : ∀ entry ∈ tree.entries, entry.2.hasStringDescriptor = false)
    (keepNulls : Bool) :
    ∃ restored : PathTree,
      (jsonToPathTree codec (pathTreeToJson tree keepNulls)).run .empty = (.ok (), restored) ∧
        pathTreeToJson restored keepNulls = pathTreeToJson tree keepNulls ∧
        (keepNulls = true → restored = tree) := by
  refine ⟨tree.prune (keeps keepNulls), ?_, pathTreeToJson_prune tree keepNulls, ?_⟩
  · have hsame : ∀ entry ∈ tree.entries.filter (fun entry => keeps keepNulls entry.2),
        (entry.1, entry.2.readBack codec) = entry := by
      intro entry hentry
      rw [PathElement.readBack_of_hasStringDescriptor
        (hdescriptors entry (List.mem_of_mem_filter hentry))]
    have hrun := run_jsonToPathNodes codec .empty
      (tree.entries.filter fun entry => keeps keepNulls entry.2)
    rw [List.map_congr_left hsame, List.map_id'] at hrun
    rw [← tree.setAll_filter_entries (keeps keepNulls)]
    exact hrun
  · rintro rfl
    exact tree.prune_of_keep (keeps true) fun _ => rfl

/-- A tree that is written and read has the written elements, up to what reading makes of a
descriptor that is a string. -/
theorem value?_jsonToPathTree (codec : JsonCodec) (tree : PathTree) (keepNulls : Bool) :
    ∃ restored : PathTree,
      (jsonToPathTree codec (pathTreeToJson tree keepNulls)).run .empty = (.ok (), restored) ∧
        ∀ node value, tree.value? node = some value → keeps keepNulls value = true →
          restored.value? node = some (value.readBack codec) := by
  refine ⟨_, run_jsonToPathNodes codec .empty _, fun node value hvalue hkeeps => ?_⟩
  apply NamedTree.value?_setAll_of_mem
  · rw [List.map_map]
    exact tree.nodup_paths.sublist (List.filter_sublist.map Prod.fst)
  · have hentry : (node, value) ∈ tree.entries := NamedTree.mem_entries_of_value? hvalue
    exact List.mem_map_of_mem (List.mem_filter.mpr ⟨hentry, hkeeps⟩)

/-- A device with a nested descriptor below a plugin, and an alias that was created
before the plugin got its value. -/
def sampleTree : PathTree :=
  ((PathTree.empty.set [⟨"plugin".toList, by decide⟩, ⟨"device".toList, by decide⟩]
    (.deviceElement "device".toList "localhost".toList
      (.obj [("interfaces".toList, .obj [("tracker".toList, .null)])]))).set
    [⟨"me".toList, by decide⟩] (.aliasElement "/plugin/device/tracker".toList 255)).set
    [⟨"plugin".toList, by decide⟩] .pluginElement

theorem jsonToPathTree_pathTreeToJson_sampleTree :
    ∃ restored : PathTree,
      (jsonToPathTree ⟨fun _ => none, fun _ => [], fun _ => [], fun _ => []⟩
        (pathTreeToJson sampleTree true)).run .empty = (.ok (), restored) ∧
          restored = sampleTree := by
  obtain ⟨restored, hrun, -, hsame⟩ := jsonToPathTree_pathTreeToJson
    ⟨fun _ => none, fun _ => [], fun _ => [], fun _ => []⟩ sampleTree
    (by decide) true
  exact ⟨restored, hrun, hsame rfl⟩

end OSVR.Common
