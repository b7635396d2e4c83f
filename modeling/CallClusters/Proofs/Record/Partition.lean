import CallClusters.Proofs.Record.Clustering

/-! Partitions and levels as data, and with them all data that are kept as text. Whatever stands in
it, a text in either style is read back as the data that it was written for. -/

namespace CallClusters

open Json (Faithful)

namespace Partition

theorem faithful : Faithful toJson ofJson? := Faithful.string.list.list

theorem faithful_levels : Faithful levelsToJson levelsOfJson? := faithful.list

end Partition

/-- Graphs, clusterings, partitions and levels all come back from their texts. -/
theorem parse?_write_data {write : Json → String}
    (hwrite : write = Json.compact ∨ write = Json.pretty) :
    (∀ g : GraphRecord, (Json.parse? (write g.toJson)).bind GraphRecord.ofJson? = some g) ∧
    (∀ c : ClusteringRecord,
      (Json.parse? (write c.toJson)).bind ClusteringRecord.ofJson? = some c) ∧
    (∀ p : Partition, (Json.parse? (write p.toJson)).bind Partition.ofJson? = some p) ∧
    ∀ levels : List Partition,
      (Json.parse? (write (Partition.levelsToJson levels))).bind Partition.levelsOfJson? =
        some levels :=
  ⟨GraphRecord.faithful.parse?_write hwrite, ClusteringRecord.faithful.parse?_write hwrite,
    Partition.faithful.parse?_write hwrite, Partition.faithful_levels.parse?_write hwrite⟩

/-- Quotes, backslashes, a control character and one that is written as a surrogate pair by others;
the greatest id, empty lists, and edges that lack one method or both. -/
theorem parse?_write_data_escaped :
    let names : List String := ["", "\"\\", "a\x01\n", "𝄞/"]
    let method : Method := ⟨"f", [⟨"int", "\"n\""⟩], "", "B\\", "f(\t)"⟩
    let c : ClusteringRecord :=
      ⟨[⟨4294967295, names, [⟨"\"", "𝄞", none, some method⟩]⟩, ⟨0, [], []⟩], [⟨"", "", none, none⟩]⟩
    (Json.parse? (Json.pretty c.toJson)).bind ClusteringRecord.ofJson? = some c ∧
      (Json.parse? (Json.pretty (Partition.toJson [names, [], names]))).bind Partition.ofJson? =
        some [names, [], names] := by
  intro names method c
  obtain ⟨-, hclustering, hpartition, -⟩ := parse?_write_data (.inr (Eq.refl Json.pretty))
  exact ⟨hclustering c, hpartition [names, [], names]⟩

end CallClusters
