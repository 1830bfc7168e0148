import WindowAlign.Proofs.Store.Rollovers
import WindowAlign.Store.Projection

/-!
# Trims

A trim cuts the series of one category in two. The latest snapshots, as many as the depth allows, stay
as they are; the earlier ones go, and the orphans among their records are counted as they go
(`trim_orphaned`). The window of a snapshot that is gone reads like one that never had any
(`gone_of_absent`), and opened anew it starts from nothing. What is left is not cut again
(`trim_again`). All this is one structure, `TrimmedTo`, for any keyed store and any depth.
-/

namespace WindowAlign

namespace Store

/-- Nothing is kept of a window: it has no snapshot, no records, no operations, and its projection is
the table without rows. -/
structure Gone (s : Store) (c : Category) (w : Int) : Prop where
  snapshot : s.snapshot? c w = none
  rows : s.rowCount c w = 0
  operations : s.operations c w = .ok []
  projection : s.project c w =
    .ok (.empty c.schema.projectionDimensions c.schema.projectedMetrics)
  /-- Opened, it has a snapshot without records and without an end. -/
  opened : (s.openWindow c w).1 = (⟨w, none, []⟩, true) ∧
    (s.openWindow c w).2.snapshot? c w = some ⟨w, none, []⟩

/-- What a trim of a category leaves and reports. -/
structure TrimmedTo (s : Store) (c : Category) (depth : Nat) (report : Trimmed) (s' : Store) :
    Prop where
  /-- The windows that are removed and after them those that are kept are those that were there, -/
  windows : report.removed ++ s'.windowStarts c = s.windowStarts c
  /-- and each of them is later than those before it. -/
  ascending : (report.removed ++ s'.windowStarts c).Pairwise (· < ·)
  /-- As many are kept as the depth allows, -/
  size : (s'.windowStarts c).length = min (s.windowStarts c).length depth
  /-- with all that their snapshots held. -/
  kept : s'.snapshots c <:+ s.snapshots c
  /-- Counted are the ends without a start in the windows that are removed. -/
  orphaned : report.orphaned = if c.schema.isStartFinish then
    (report.removed.flatMap (s.records c)).countP c.schema.isOrphan else 0
  others : ∀ d, d ≠ c → s'.snapshots d = s.snapshots d
  gone : ∀ w ∈ report.removed, s'.Gone c w
  /-- The same trim once more finds nothing to remove. -/
  again : s'.trim c depth = (⟨[], 0⟩, s')

variable {s : Store} {c : Category} {w : Int}

theorem gone_of_absent (h : s.snapshot? c w = none) : s.Gone c w := by
  have hrecords : s.records c w = [] := by rw [records, h]; rfl
  refine ⟨h, ?_, ?_, ?_, ?_, ?_⟩
  · rw [rowCount, hrecords]
    rfl
  · rw [Store.operations, hrecords]
    exact ite_self _
  · rw [project, hrecords]
    exact ite_self _
  · rw [openWindow, h]
    rfl
  · rw [snapshot?_openWindow, if_pos ⟨rfl, rfl⟩, h]
    rfl

theorem snapshots_trim_self (s : Store) (c : Category) (depth : Nat) :
    (s.trim c depth).2.snapshots c =
      (s.snapshots c).drop ((s.snapshots c).length - depth) := by
  rw [snapshots_trim, if_pos rfl]

theorem windows_trim (s : Store) (c : Category) (depth : Nat) :
    (s.trim c depth).1.removed ++ (s.trim c depth).2.windowStarts c = s.windowStarts c := by
  rw [windowStarts, snapshots_trim_self, windowStarts]
  show ((s.snapshots c).take ((s.snapshots c).length - depth)).map (·.windowStart) ++ _ = _
  rw [← List.map_append, List.take_append_drop]

theorem trim_orphaned (h : Series.Ascending (s.snapshots c)) (depth : Nat) :
    (s.trim c depth).1.orphaned = if c.schema.isStartFinish then
      ((s.trim c depth).1.removed.flatMap (s.records c)).countP c.schema.isOrphan else 0 := by
  have hrecords : (s.trim c depth).1.removed.flatMap (s.records c) =
      ((s.snapshots c).take ((s.snapshots c).length - depth)).flatMap (·.records) := by
    show (((s.snapshots c).take ((s.snapshots c).length - depth)).map (·.windowStart)).flatMap
      (s.records c) = _
    rw [List.flatMap_map]
    exact List.flatMap_congr fun n hn => records_of_mem h (List.mem_of_mem_take hn)
  rw [hrecords]
  rfl

/-- **A trim does all of its work at once.** -/
theorem trim_again (s : Store) (c : Category) (depth : Nat) :
    (s.trim c depth).2.trim c depth = (⟨[], 0⟩, (s.trim c depth).2) := by
  have hnone : ((s.trim c depth).2.snapshots c).length - depth = 0 := by
    rw [snapshots_trim_self, List.length_drop]
    omega
  generalize (s.trim c depth).2 = left at hnone ⊢
  unfold trim
  simp only [hnone, List.take_zero, List.drop_zero, List.map_nil, List.flatMap_nil,
    List.countP_nil, ite_self, setSnapshots_self]

/-- **A trim drops the oldest snapshots beyond the depth and nothing else**, whatever the store holds
and whatever the depth, from none up. -/
theorem trim_keeps_latest (hs : s.Keyed) (c : Category) (depth : Nat) :
    s.TrimmedTo c depth (s.trim c depth).1 (s.trim c depth).2 where
  windows := windows_trim s c depth
  ascending := by
    rw [windows_trim]
    exact List.pairwise_map.2 (hs c).ascending
  size := by
    rw [windowStarts, windowStarts, List.length_map, List.length_map, snapshots_trim_self,
      List.length_drop]
    omega
  kept := by
    rw [snapshots_trim_self]
    exact List.drop_suffix ..
  orphaned := trim_orphaned (hs c).ascending depth
  others d hd := by rw [snapshots_trim, if_neg hd.symm]
  gone w hw := gone_of_absent (by rw [snapshot?_trim (hs c).ascending, if_pos ⟨rfl, hw⟩])
  again := trim_again s c depth

/-- Of the windows of the tasks the last is kept, and the one end without a start is counted. -/
theorem trim_keeps_latest_tasks :
    taskWindows.TrimmedTo .clusterManagerTasks 1 ⟨[15000, 20000], 1⟩
      (taskWindows.trim .clusterManagerTasks 1).2 :=
  trim_keeps_latest (keyed_after 5000 _) .clusterManagerTasks 1

end Store

end WindowAlign
