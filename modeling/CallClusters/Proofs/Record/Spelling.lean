import CallClusters.Proofs.Json.Record
import CallClusters.Proofs.Record.Clustering

/-! All the values that spell the data of a graph or of a clustering, with a choice at every record
in them, and the values in which some record gives a known field twice. The former are read as the
data and the latter are not read, from every text that spells them. -/

namespace CallClusters

open Json (Slot RecordSpelled RecordDoubled ListDoubled Reads Rejects)

/-! ### Methods and nodes -/

namespace Parameter

def slots (p : Parameter) : List Slot := [.text "type" p.type, .text "value" p.name]

def Spelled (p : Parameter) : Json → Prop := RecordSpelled p.slots

def Doubled : Json → Prop := RecordDoubled ["type", "value"] []

theorem reads : Reads Spelled ofJson? := by
  refine Json.reads_record (fun _ => rfl) (by decide) (by simp) (Nat.zero_le _) fun p row h => ?_
  simp only [slots, List.forall_mem_cons] at h
  obtain ⟨htype, hname, -⟩ := h
  simp [Json.Row.defaulted?_text htype, Json.Row.defaulted?_text hname]

theorem spelled_toJson (p : Parameter) : p.Spelled p.toJson :=
  Json.recordSpelled_given (.give rfl (.give rfl .nil))

theorem rejects : Rejects Doubled ofJson? :=
  Json.rejects_record (by decide) (by simp) (by simp)

end Parameter

namespace Method

def slots (m : Method) : List Slot := [
  .text "return_type" m.returnType,
  .text "method_name" m.name,
  .text "declaring_class" m.declaringClass,
  .list "arguments" Parameter.Spelled m.parameters,
  .text "method_signature" m.signature]

def Spelled (m : Method) : Json → Prop := RecordSpelled m.slots

def Doubled : Json → Prop := RecordDoubled
  ["return_type", "method_name", "declaring_class", "arguments", "method_signature"]
  [("arguments", ListDoubled Parameter.Doubled)]

theorem reads : Reads Spelled ofJson? := by
  refine Json.reads_record (fun _ => rfl) (by decide) (by simp) (Nat.zero_le _) fun m row h => ?_
  simp only [slots, List.forall_mem_cons] at h
  obtain ⟨hreturn, hname, hclass, harguments, hsignature, -⟩ := h
  simp [Json.Row.defaulted?_text hreturn, Json.Row.defaulted?_text hname,
    Json.Row.defaulted?_text hclass, Json.Row.defaulted?_list Parameter.reads harguments,
    Json.Row.defaulted?_text hsignature]

theorem spelled_toJson (m : Method) : m.Spelled m.toJson :=
  Json.recordSpelled_given (.give rfl (.give rfl (.give rfl
    (.give (Json.listSpelled_map Parameter.spelled_toJson _) (.give rfl .nil)))))

theorem rejects : Rejects Doubled ofJson? := by
  refine Json.rejects_record (by decide) (by simp) (List.forall_mem_singleton.2 ?_)
  intro row value hlookup hdoubled
  simp [Json.Row.defaulted?_of_lookup hlookup, Parameter.rejects.list value hdoubled]

end Method

def nodeSlots (name : String) : List Slot := [.text "name" name]

def NodeSpelled (name : String) : Json → Prop := RecordSpelled (nodeSlots name)

def NodeDoubled : Json → Prop := RecordDoubled ["name"] []

theorem reads_node : Reads NodeSpelled nodeOfJson? := by
  refine Json.reads_record (fun _ => rfl) (by decide) (by simp) (Nat.zero_le _) fun name row h => ?_
  exact Json.Row.defaulted?_text (h _ List.mem_cons_self)

theorem spelled_nodeToJson (name : String) : NodeSpelled name (nodeToJson name) :=
  Json.recordSpelled_given (.give rfl .nil)

theorem rejects_node : Rejects NodeDoubled nodeOfJson? :=
  Json.rejects_record (by decide) (by simp) (by simp)

/-! ### Edges -/

namespace EdgeRecord

def slots (e : EdgeRecord) : List Slot := [
  .text "source" e.source,
  .text "destination" e.target,
  .optional "link_method" Method.Spelled e.method,
  .optional "source_method" Method.Spelled e.caller]

def Spelled (e : EdgeRecord) : Json → Prop := RecordSpelled e.slots

def Doubled : Json → Prop := RecordDoubled
  ["source", "destination", "link_method", "source_method"]
  [("link_method", Method.Doubled), ("source_method", Method.Doubled)]

theorem reads : Reads Spelled ofJson? := by
  refine Json.reads_record (fun _ => rfl) (by decide) (by simp) (Nat.zero_le _) fun e row h => ?_
  simp only [slots, List.forall_mem_cons] at h
  obtain ⟨hsource, htarget, hmethod, hcaller, -⟩ := h
  have hnull (m : Method) : ¬ m.Spelled .null := RecordSpelled.ne_null
  simp [Json.Row.defaulted?_text hsource, Json.Row.defaulted?_text htarget,
    Json.Row.optional?_optional Method.reads hnull hmethod,
    Json.Row.optional?_optional Method.reads hnull hcaller]

theorem spelled_toJson (e : EdgeRecord) : e.Spelled e.toJson := by
  obtain ⟨source, target, method, caller⟩ := e
  refine Json.recordSpelled_given (.give rfl (.give rfl ?_))
  cases method with
  | none =>
    cases caller with
    | none => exact .leave rfl (.leave rfl .nil)
    | some m => exact .leave rfl (.give m.spelled_toJson .nil)
  | some m =>
    cases caller with
    | none => exact .give m.spelled_toJson (.leave rfl .nil)
    | some l => exact .give m.spelled_toJson (.give l.spelled_toJson .nil)

theorem rejects : Rejects Doubled ofJson? := by
  have hmethod := Method.rejects.optional RecordDoubled.ne_null
  refine Json.rejects_record (by decide) (by simp)
    (List.forall_mem_cons.2 ⟨?_, List.forall_mem_singleton.2 ?_⟩)
  all_goals
    intro row value hlookup hdoubled
    simp [Json.Row.optional?, Json.Row.defaulted?_of_lookup hlookup, hmethod value hdoubled]

end EdgeRecord

/-! ### Graphs -/

namespace GraphRecord

def slots (g : GraphRecord) : List Slot := [
  .list "nodes" NodeSpelled g.nodes,
  .list "edges" EdgeRecord.Spelled g.edges]

def Spelled (g : GraphRecord) : Json → Prop := RecordSpelled g.slots

def Doubled : Json → Prop := RecordDoubled ["nodes", "edges"]
  [("nodes", ListDoubled NodeDoubled), ("edges", ListDoubled EdgeRecord.Doubled)]

theorem reads : Reads Spelled ofJson? := by
  refine Json.reads_record (fun _ => rfl) (by decide) (by simp) (Nat.zero_le _) fun g row h => ?_
  simp only [slots, List.forall_mem_cons] at h
  obtain ⟨hnodes, hedges, -⟩ := h
  simp [Json.Row.defaulted?_list reads_node hnodes,
    Json.Row.defaulted?_list EdgeRecord.reads hedges]

theorem spelled_toJson (g : GraphRecord) : g.Spelled g.toJson :=
  Json.recordSpelled_given (.give (Json.listSpelled_map spelled_nodeToJson _)
    (.give (Json.listSpelled_map EdgeRecord.spelled_toJson _) .nil))

theorem rejects : Rejects Doubled ofJson? := by
  refine Json.rejects_record (by decide) (by simp)
    (List.forall_mem_cons.2 ⟨?_, List.forall_mem_singleton.2 ?_⟩)
  · intro row value hlookup hdoubled
    simp [Json.Row.defaulted?_of_lookup hlookup, rejects_node.list value hdoubled]
  · intro row value hlookup hdoubled
    simp [Json.Row.defaulted?_of_lookup hlookup, EdgeRecord.rejects.list value hdoubled]

end GraphRecord

/-! ### Clusterings -/

namespace ClusterRecord

def slots (k : ClusterRecord) : List Slot := [
  .required "id" (fun j => j = .nat k.id.toNat),
  .list "nodes" NodeSpelled k.nodes,
  .list "intra_cluster_edges" EdgeRecord.Spelled k.intraEdges]

def Spelled (k : ClusterRecord) : Json → Prop := RecordSpelled k.slots

def Doubled : Json → Prop := RecordDoubled ["id", "nodes", "intra_cluster_edges"]
  [("nodes", ListDoubled NodeDoubled), ("intra_cluster_edges", ListDoubled EdgeRecord.Doubled)]

/-- The id has to be there, in an array too. -/
theorem reads : Reads Spelled ofJson? := by
  refine Json.reads_record (fun _ => rfl) (by decide) (by simp [slots, Slot.required]) (by decide)
    fun k row h => ?_
  simp only [slots, List.forall_mem_cons] at h
  obtain ⟨hid, hnodes, hedges, -⟩ := h
  simp [Json.Row.required?_required Json.reads_word32 hid,
    Json.Row.defaulted?_list reads_node hnodes, Json.Row.defaulted?_list EdgeRecord.reads hedges]

theorem spelled_toJson (k : ClusterRecord) : k.Spelled k.toJson :=
  Json.recordSpelled_given (.give rfl (.give (Json.listSpelled_map spelled_nodeToJson _)
    (.give (Json.listSpelled_map EdgeRecord.spelled_toJson _) .nil)))

theorem rejects : Rejects Doubled ofJson? := by
  refine Json.rejects_record (by decide) (by simp)
    (List.forall_mem_cons.2 ⟨?_, List.forall_mem_singleton.2 ?_⟩)
  · intro row value hlookup hdoubled
    simp [Json.Row.defaulted?_of_lookup hlookup, rejects_node.list value hdoubled]
  · intro row value hlookup hdoubled
    simp [Json.Row.defaulted?_of_lookup hlookup, EdgeRecord.rejects.list value hdoubled]

end ClusterRecord

namespace ClusteringRecord

def slots (c : ClusteringRecord) : List Slot := [
  .list "clusters" ClusterRecord.Spelled c.clusters,
  .list "inter_cluster_edges" EdgeRecord.Spelled c.interEdges]

def Spelled (c : ClusteringRecord) : Json → Prop := RecordSpelled c.slots

def Doubled : Json → Prop := RecordDoubled ["clusters", "inter_cluster_edges"]
  [("clusters", ListDoubled ClusterRecord.Doubled),
    ("inter_cluster_edges", ListDoubled EdgeRecord.Doubled)]

theorem reads : Reads Spelled ofJson? := by
  refine Json.reads_record (fun _ => rfl) (by decide) (by simp) (Nat.zero_le _) fun c row h => ?_
  simp only [slots, List.forall_mem_cons] at h
  obtain ⟨hclusters, hedges, -⟩ := h
  simp [Json.Row.defaulted?_list ClusterRecord.reads hclusters,
    Json.Row.defaulted?_list EdgeRecord.reads hedges]

theorem spelled_toJson (c : ClusteringRecord) : c.Spelled c.toJson :=
  Json.recordSpelled_given (.give (Json.listSpelled_map ClusterRecord.spelled_toJson _)
    (.give (Json.listSpelled_map EdgeRecord.spelled_toJson _) .nil))

theorem rejects : Rejects Doubled ofJson? := by
  refine Json.rejects_record (by decide) (by simp)
    (List.forall_mem_cons.2 ⟨?_, List.forall_mem_singleton.2 ?_⟩)
  · intro row value hlookup hdoubled
    simp [Json.Row.defaulted?_of_lookup hlookup, ClusterRecord.rejects.list value hdoubled]
  · intro row value hlookup hdoubled
    simp [Json.Row.defaulted?_of_lookup hlookup, EdgeRecord.rejects.list value hdoubled]

end ClusteringRecord

/-! ### Texts -/

/-- Every text that spells the data of a graph or of a clustering is read as these data: with blanks
between tokens, with the fields of any object in any order, with unknown fields of any values, with
fields left out that hold their defaults, with null for a method that is absent, and with arrays of
fields for records. What is printed of the data is one of these texts. Where some record gives a
known field twice, nothing is read. -/
theorem read_of_spelling :
    (∀ (g : GraphRecord) (text : String), Json.TextOf g.Spelled text →
      (Json.parse? text).bind GraphRecord.ofJson? = some g) ∧
    (∀ (c : ClusteringRecord) (text : String), Json.TextOf c.Spelled text →
      (Json.parse? text).bind ClusteringRecord.ofJson? = some c) ∧
    (∀ print, print = Json.compact ∨ print = Json.pretty →
      (∀ g : GraphRecord, Json.TextOf g.Spelled (print g.toJson)) ∧
        ∀ c : ClusteringRecord, Json.TextOf c.Spelled (print c.toJson)) ∧
    (∀ text, Json.TextOf GraphRecord.Doubled text →
      (Json.parse? text).bind GraphRecord.ofJson? = none) ∧
    ∀ text, Json.TextOf ClusteringRecord.Doubled text →
      (Json.parse? text).bind ClusteringRecord.ofJson? = none := by
  refine ⟨fun g text h => GraphRecord.reads.of_text h,
    fun c text h => ClusteringRecord.reads.of_text h,
    fun print hprint => ⟨fun g => ?_, fun c => ?_⟩,
    fun text h => GraphRecord.rejects.of_text h, fun text h => ClusteringRecord.rejects.of_text h⟩
  · exact Json.textOf_print g.spelled_toJson (GraphRecord.faithful.proper g) hprint
  · exact Json.textOf_print c.spelled_toJson (ClusteringRecord.faithful.proper c) hprint

/-- Two clusters, one of them an array and the other an object out of order, and an edge without its
methods. An unknown field holds half of a surrogate pair. Then a node that is named twice. -/
theorem read_of_spelling_mixed :
    let c : ClusteringRecord := ⟨[⟨7, ["A"], []⟩, ⟨8, [""], [⟨"A", "B", none, none⟩]⟩], []⟩
    let edge : Json := .record
      [("destination", .text "B"), ("link_method", .null), ("source", .text "A")]
    let second : Json := .record
      [("intra_cluster_edges", .array [edge]), ("id", .nat 8), ("nodes", .array [.record []])]
    let j : Json := .record [("seen", .array [.string none, .bool true]),
      ("clusters", .array [.array [.nat 7, .array [.array [.text "A"]]], second])]
    let named : Json := .record
      [("nodes", .array [.record [("name", .text "A"), ("name", .text "A")]])]
    Json.TextOf c.Spelled j.pretty ∧
      (Json.parse? j.pretty).bind ClusteringRecord.ofJson? = some c ∧
      Json.TextOf GraphRecord.Doubled named.compact ∧
      (Json.parse? named.compact).bind GraphRecord.ofJson? = none := by
  intro c edge second j named
  obtain ⟨-, hclusters, -, hdoubled, -⟩ := read_of_spelling
  have hedge : EdgeRecord.Spelled ⟨"A", "B", none, none⟩ edge := by
    have hperm : List.Perm
        ([("destination", .text "B"), ("link_method", .null), ("source", .text "A")] : Json.Row)
        [("source", .text "A"), ("destination", .text "B"), ("link_method", .null)] :=
      List.perm_append_singleton _ [_, _]
    exact Json.recordSpelled_perm (.give rfl (.give rfl (.give rfl (.leave rfl .nil)))) hperm
  have hsecond : ClusterRecord.Spelled ⟨8, [""], [⟨"A", "B", none, none⟩]⟩ second := by
    have hnode : NodeSpelled "" (.record []) := Json.recordSpelled_given (.leave rfl .nil)
    have hperm : List.Perm ([("intra_cluster_edges", .array [edge]), ("id", .nat 8),
        ("nodes", .array [.record []])] : Json.Row) [("id", .nat 8), ("nodes", .array [.record []]),
        ("intra_cluster_edges", .array [edge])] := (List.perm_append_singleton _ [_, _]).symm
    exact Json.recordSpelled_perm (.give rfl
      (.give ⟨_, rfl, .cons hnode .nil⟩ (.give ⟨_, rfl, .cons hedge .nil⟩ .nil))) hperm
  have hfirst : ClusterRecord.Spelled ⟨7, ["A"], []⟩
      (.array [.nat 7, .array [.array [.text "A"]]]) := by
    have hnode : NodeSpelled "A" (.array [.text "A"]) :=
      .array (List.append_nil _).symm (.cons rfl .nil) (by simp)
    refine .array (List.take_append_drop 2 _).symm
      (.cons rfl (.cons ⟨_, rfl, .cons hnode .nil⟩ .nil)) ?_
    simp [ClusterRecord.slots, Slot.list]
  have hj : c.Spelled j := by
    refine .object (.give ⟨_, rfl, .cons hfirst (.cons hsecond .nil)⟩ (.leave rfl .nil)) ?_
      (List.perm_append_singleton _ [_]).symm
    decide
  have hproper : j.Proper := by
    intro n hn
    have hn : n = .ofNat 7 ∨ n = .ofNat 8 := by
      simpa [j, second, edge, Json.record, Json.text, Json.nat, Json.tokens, Json.itemTokens,
        Json.fieldTokens] using hn
    rcases hn with rfl | rfl <;> exact Numeral.proper_ofNat _
  have htext : Json.TextOf c.Spelled j.pretty := Json.textOf_print hj hproper (.inr rfl)
  have hnamed : GraphRecord.Doubled named :=
    .field List.mem_cons_self List.mem_cons_self
      ⟨_, rfl, _, List.mem_singleton_self _, .here List.mem_cons_self (by decide)⟩
  have hproper : named.Proper := by
    simp [named, Json.Proper, Json.record, Json.text, Json.tokens, Json.itemTokens,
      Json.fieldTokens]
  have htwice : Json.TextOf GraphRecord.Doubled named.compact :=
    Json.textOf_print hnamed hproper (.inl rfl)
  exact ⟨htext, hclusters c _ htext, htwice, hdoubled _ htwice⟩

end CallClusters
