import Fat16.Proofs.Walk.Lockstep
import Fat16.Proofs.Walk.Work

/-!
# The content of a directory

A directory lies in one or more extents of the image. The root directory has one, and every other
directory has the clusters of its chain. The image may end before any of them, and the clusters of a
chain come in any order, so an extent that is cut can be followed by others that are not. Those are
dropped nevertheless (`Extent.upToCut`): their bytes would not line up with the records before them.

A directory does not look for the extent that is cut, it compares lengths. That comes to the same,
because all extents before the first that is cut count with their full length
(`Volume.size_chainRegion_lt_iff`), and clusters without bytes lose none.

`Walk.readFrom_of_mem` puts this together with what the walk leaves alone: the size and the entries
of a directory, and all that is found on it apart from its subdirectory entries.
-/

namespace Fat16

/-! ## Extents -/

/-- A part of an image, which may reach past its end. -/
structure Extent where
  /-- Where it starts. -/
  offset : Nat
  /-- How many bytes it should have. -/
  length : Nat
  deriving DecidableEq

namespace Extent

variable {image : Bytes} {e : Extent} {extents : List Extent}

/-- The bytes of an extent as far as the image goes. -/
def bytes (image : Bytes) (e : Extent) : Bytes := image.window e.offset e.length

/-- The image ends before the extent does. An extent without bytes has nothing to lose. -/
def IsCut (image : Bytes) (e : Extent) : Prop := 0 < e.length ∧ image.size < e.offset + e.length

instance : Decidable (e.IsCut image) := inferInstanceAs (Decidable (_ ∧ _))

/-- The extents up to and including the first that is cut. -/
def upToCut (image : Bytes) : List Extent → List Extent
  | [] => []
  | e :: extents => if e.IsCut image then [e] else e :: upToCut image extents

/-- What there is to read of these extents. -/
def read (image : Bytes) (extents : List Extent) : Bytes :=
  .concat ((upToCut image extents).map (bytes image))

theorem size_bytes_lt_iff : (e.bytes image).size < e.length ↔ e.IsCut image := by
  rw [IsCut, bytes, Bytes.size_window]
  omega

theorem upToCut_cons_of_isCut (h : e.IsCut image) : upToCut image (e :: extents) = [e] := by
  rw [upToCut, if_pos h]

theorem upToCut_cons_of_not_isCut (h : ¬ e.IsCut image) :
    upToCut image (e :: extents) = e :: upToCut image extents := by
  rw [upToCut, if_neg h]

/-- A single extent is read as it is, whether it is cut or not. -/
theorem read_singleton (image : Bytes) (e : Extent) : read image [e] = e.bytes image := by
  rw [read, upToCut, upToCut, ite_self, List.map_singleton, Bytes.concat, List.foldl_cons,
    List.foldl_nil, Array.empty_append]

end Extent

/-! ## The extents of a volume -/

namespace Volume

variable {v : Volume} {image : Bytes} {c : Cluster} {clusters : List Cluster}

/-- The extent of the root directory. -/
def rootExtent (v : Volume) : Extent := ⟨v.rootStart, v.rootSize⟩

/-- The extent of a cluster. -/
def clusterExtent (v : Volume) (c : Cluster) : Extent :=
  ⟨v.dataStart + (c - firstCluster) * v.clusterSize, v.clusterSize⟩

theorem clusterOffset_eq (h : firstCluster ≤ c) :
    v.clusterOffset c = some (v.clusterExtent c).offset := by
  rw [clusterOffset, if_neg (Nat.not_lt.2 h), clusterExtent]

theorem clusterBytes_eq (h : firstCluster ≤ c) :
    v.clusterBytes image c = (v.clusterExtent c).bytes image := by
  rw [clusterBytes, clusterOffset_eq h]
  rfl

theorem isWhole_bytes_iff : v.isWhole ((v.clusterExtent c).bytes image) = true ↔
    ¬ (v.clusterExtent c).IsCut image := by
  rw [← Extent.size_bytes_lt_iff, Nat.not_lt]
  exact decide_eq_true_iff

/-- A chain is read up to and including the first of its clusters that is cut. -/
theorem map_bytes_upToCut (v : Volume) (image : Bytes) (clusters : List Cluster) :
    let parts := (clusters.map v.clusterExtent).map (Extent.bytes image)
    (Extent.upToCut image (clusters.map v.clusterExtent)).map (Extent.bytes image) =
      parts.takeWhile v.isWhole ++ (parts.dropWhile v.isWhole).take 1 := by
  induction clusters with
  | nil => rfl
  | cons c clusters ih =>
    simp only [List.map_cons] at ih ⊢
    by_cases hcut : (v.clusterExtent c).IsCut image
    · have hwhole : ¬ v.isWhole ((v.clusterExtent c).bytes image) = true :=
        fun hw ↦ isWhole_bytes_iff.1 hw hcut
      rw [Extent.upToCut_cons_of_isCut hcut, List.takeWhile_cons_of_neg hwhole,
        List.dropWhile_cons_of_neg hwhole]
      rfl
    · have hwhole := isWhole_bytes_iff.2 hcut
      rw [Extent.upToCut_cons_of_not_isCut hcut, List.takeWhile_cons_of_pos hwhole,
        List.dropWhile_cons_of_pos hwhole, List.cons_append, ← ih, List.map_cons]

theorem rootRegion_eq_read (v : Volume) (image : Bytes) :
    v.rootRegion image = Extent.read image [v.rootExtent] :=
  (Extent.read_singleton image v.rootExtent).symm

theorem size_rootRegion_lt_iff :
    (v.rootRegion image).size < v.rootSize ↔ ∃ e ∈ [v.rootExtent], e.IsCut image := by
  rw [rootRegion_eq_read, Extent.read_singleton]
  simp only [List.mem_singleton, exists_eq_left]
  exact Extent.size_bytes_lt_iff

section Chain

variable (h : ∀ c ∈ clusters, firstCluster ≤ c)
include h

/-- The region of a chain is what there is to read of its clusters. -/
theorem chainRegion_eq_read :
    v.chainRegion image clusters = Extent.read image (clusters.map v.clusterExtent) := by
  have hparts : clusters.map (v.clusterBytes image) =
      (clusters.map v.clusterExtent).map (Extent.bytes image) := by
    rw [List.map_map]
    exact List.map_congr_left fun c hc ↦ clusterBytes_eq (h c hc)
  rw [chainRegion, hparts, Extent.read, map_bytes_upToCut]

/-- Bytes of a chain are missing if and only if one of its clusters is cut. -/
theorem size_chainRegion_lt_iff :
    (v.chainRegion image clusters).size < clusters.length * v.clusterSize ↔
      ∃ e ∈ clusters.map v.clusterExtent, e.IsCut image := by
  rw [← Nat.not_le, le_size_chainRegion_iff]
  constructor
  · intro hall
    by_contra hnone
    refine hall fun c hc ↦ Nat.le_of_not_lt fun hlt ↦ ?_
    rw [clusterBytes_eq (h c hc)] at hlt
    exact hnone ⟨_, List.mem_map_of_mem hc, Extent.size_bytes_lt_iff.1 hlt⟩
  · rintro ⟨e, he, hcut⟩ hall
    obtain ⟨c, hc, rfl⟩ := List.mem_map.1 he
    have hle := hall c hc
    rw [clusterBytes_eq (h c hc)] at hle
    exact Nat.not_lt.2 hle (Extent.size_bytes_lt_iff.2 hcut)

end Chain

end Volume

/-! ## Findings on the bytes of a directory -/

namespace Finding

variable {f : Finding}

/-- Whether a finding says that a part reaches past the end of the image. -/
def isTruncated : Finding → Bool
  | .truncated .. => true
  | _ => false

/-- Whether a finding says that a directory ends inside a record. -/
def isCutRecord : Finding → Bool
  | .cutRecord _ => true
  | _ => false

theorem isOnEntry_of_isTruncated (h : f.isTruncated = true) : f.isOnEntry = false := by
  match f, h with
  | .truncated .., _ => rfl

theorem isOnEntry_of_isCutRecord (h : f.isCutRecord = true) : f.isOnEntry = false := by
  match f, h with
  | .cutRecord _, _ => rfl

end Finding

/-- What is found on a chain is of other kinds than what is found on the bytes. -/
theorem ChainEnd.kinds_of_finding? {how : ChainEnd} {f : Finding}
    (h : how.finding? = some f) : f.isTruncated = false ∧ f.isCutRecord = false := by
  rcases how with _ | _ | _ | _ | _
  · cases h
  all_goals
    obtain rfl := Option.some.inj h
    exact ⟨rfl, rfl⟩

namespace Walk

variable {w : Walk} {node : Node} {place : Place} {area : Area} {expected : Nat}
  {extents : List Extent}

/-- Findings of a kind that is not on entries are those that the place of the directory says. -/
theorem filter_findings_eq {p : Finding → Bool} (hp : ∀ f, p f = true → f.isOnEntry = false)
    (hnode : node ∈ w.tree.nodes) :
    node.findings.toList.filter p = (w.ownFindings node.place).filter p := by
  rw [← filter_findings_of_mem hnode, List.filter_filter]
  refine List.filter_congr fun f _ ↦ ?_
  by_cases hf : p f = true
  · rw [hf, hp f hf]
    rfl
  · rw [Bool.not_eq_true] at hf
    rw [hf, Bool.false_and]

/-- No finding on a chain is of a kind that no end of a chain gives. -/
theorem filter_chain_eq_nil (place : Place) {p : Finding → Bool}
    (hp : ∀ (how : ChainEnd) (f : Finding), how.finding? = some f → p f = false) :
    (place.chain?.bind fun chain ↦ chain.ending.finding?).toList.filter p = [] := by
  refine List.filter_eq_nil_iff.2 fun f hf ↦ ?_
  obtain ⟨chain, -, hfound⟩ := Option.bind_eq_some_iff.1 (Option.mem_toList.1 hf)
  rw [hp chain.ending f hfound]
  exact Bool.false_ne_true

theorem filter_isTruncated_ownFindings (w : Walk) (place : Place) :
    (w.ownFindings place).filter Finding.isTruncated = w.truncations place := by
  have hchain := filter_chain_eq_nil place fun _ _ h ↦ (ChainEnd.kinds_of_finding? h).1
  have hself : (w.truncations place).filter Finding.isTruncated = w.truncations place := by
    refine List.filter_eq_self.2 fun f hf ↦ ?_
    obtain ⟨area, expected, available, rfl⟩ := exists_eq_truncated_of_mem hf
    rfl
  have hcut : ((Listing.cutRecord (w.region place)).toList.map Finding.cutRecord).filter
      Finding.isTruncated = [] := by
    refine List.filter_eq_nil_iff.2 fun f hf ↦ ?_
    obtain ⟨cut, -, rfl⟩ := List.mem_map.1 hf
    exact Bool.false_ne_true
  rw [ownFindings, List.filter_append, List.filter_append, hchain, hself, hcut, List.nil_append,
    List.append_nil]

theorem filter_isCutRecord_ownFindings (w : Walk) (place : Place) :
    (w.ownFindings place).filter Finding.isCutRecord =
      (Listing.cutRecord (w.region place)).toList.map .cutRecord := by
  have hchain := filter_chain_eq_nil place fun _ _ h ↦ (ChainEnd.kinds_of_finding? h).2
  have htruncation : (w.truncations place).filter Finding.isCutRecord = [] := by
    refine List.filter_eq_nil_iff.2 fun f hf ↦ ?_
    obtain ⟨area, expected, available, rfl⟩ := exists_eq_truncated_of_mem hf
    exact Bool.false_ne_true
  have hself : ((Listing.cutRecord (w.region place)).toList.map Finding.cutRecord).filter
      Finding.isCutRecord = (Listing.cutRecord (w.region place)).toList.map .cutRecord := by
    refine List.filter_eq_self.2 fun f hf ↦ ?_
    obtain ⟨cut, -, rfl⟩ := List.mem_map.1 hf
    rfl
  rw [ownFindings, List.filter_append, List.filter_append, hchain, htruncation, hself,
    List.nil_append, List.nil_append]

/-! ## Directories -/

/-- A directory was read from these extents, which should have `expected` bytes. -/
structure ReadFrom (w : Walk) (node : Node) (area : Area) (expected : Nat)
    (extents : List Extent) : Prop where
  /-- The size counts all bytes, whether there are any or not. -/
  sizeBytes_eq : node.sizeBytes = expected
  /-- The entries are those that the bytes list. -/
  entries_eq : node.entries = (Listing.read w.volume (Extent.read w.image extents)).entries
  /-- Where an extent is cut, the directory says once how many bytes there are. -/
  truncated_of_isCut : (∃ e ∈ extents, e.IsCut w.image) →
    node.findings.toList.filter Finding.isTruncated =
      [.truncated area expected (Extent.read w.image extents).size]
  /-- Where no extent is cut, it does not say so. -/
  truncated_of_not_isCut : (¬ ∃ e ∈ extents, e.IsCut w.image) →
    node.findings.toList.filter Finding.isTruncated = []
  /-- Where the bytes end inside a record, it says so once, and only there. -/
  cutRecord_eq : node.findings.toList.filter Finding.isCutRecord =
    (Listing.read w.volume (Extent.read w.image extents)).cut.toList.map .cutRecord

theorem ReadFrom.of_place (hnode : node ∈ w.tree.nodes) (hsize : node.sizeBytes = expected)
    (hregion : w.region node.place = Extent.read w.image extents)
    (htruncations : w.truncations node.place =
      Finding.truncation area expected (w.region node.place))
    (hcut : (w.region node.place).size < expected ↔ ∃ e ∈ extents, e.IsCut w.image) :
    w.ReadFrom node area expected extents := by
  have hfound : node.findings.toList.filter Finding.isTruncated =
      Finding.truncation area expected (w.region node.place) := by
    rw [filter_findings_eq (fun _ ↦ Finding.isOnEntry_of_isTruncated) hnode,
      filter_isTruncated_ownFindings, htruncations]
  refine ⟨hsize, ?_, fun h ↦ ?_, fun h ↦ ?_, ?_⟩
  · rw [entries_of_mem hnode, hregion]
  · rw [hfound, Finding.truncation, if_pos (hcut.2 h), hregion]
  · rw [hfound, Finding.truncation, if_neg (mt hcut.1 h)]
  · rw [filter_findings_eq (fun _ ↦ Finding.isOnEntry_of_isCutRecord) hnode,
      filter_isCutRecord_ownFindings, hregion]
    rfl

/-- The size of a directory is what its place says. -/
theorem sizeBytes_of_mem (hnode : node ∈ w.tree.nodes) : node.sizeBytes =
    match node.place with
    | .root => w.volume.rootSize
    | .below _ _ chain => chain.length * w.volume.clusterSize :=
  forall_of_read
    (P := fun node ↦ node.sizeBytes =
      match node.place with
      | .root => w.volume.rootSize
      | .below _ _ chain => chain.length * w.volume.clusterSize)
    (fun _ _ h ↦ h) (fun _ _ _ h ↦ h) (fun _ _ _ _ ↦ rfl) rfl hnode

theorem readFrom_of_root (hnode : node ∈ w.tree.nodes) (hplace : node.place = .root) :
    w.ReadFrom node .rootDirectory w.volume.rootSize [w.volume.rootExtent] := by
  have hsize : node.sizeBytes = w.volume.rootSize := by rw [sizeBytes_of_mem hnode, hplace]
  apply ReadFrom.of_place hnode hsize
  · rw [hplace, region, Volume.rootRegion_eq_read]
  · rw [hplace, truncations, region]
  · rw [hplace, region, Volume.size_rootRegion_lt_iff]

theorem readFrom_of_below {parent entry : Nat} {chain : Chain} (hnode : node ∈ w.tree.nodes)
    (hplace : node.place = .below parent entry chain)
    (hfirst : ∀ c ∈ chain.clusters, firstCluster ≤ c) :
    w.ReadFrom node (.cluster chain.start) (chain.length * w.volume.clusterSize)
      (chain.clusters.map w.volume.clusterExtent) := by
  have hsize : node.sizeBytes = chain.length * w.volume.clusterSize := by
    rw [sizeBytes_of_mem hnode, hplace]
  apply ReadFrom.of_place hnode hsize
  · rw [hplace, region, Volume.chainRegion_eq_read hfirst]
  · rw [hplace, truncations, region]
  · rw [hplace, region, Chain.length, Volume.size_chainRegion_lt_iff hfirst]

/-- **What a directory was read from.** The root directory was read from its one extent, and every
other directory from the clusters of its chain, in chain order up to and including the first that
the end of the image cuts. It has the size of all of them and the entries that those bytes list. It
says that it is cut short if and only if one of its extents is, wherever in the chain that is, and
that it ends inside a record if and only if the listing says so; each at most once. -/
theorem readFrom_of_mem (hnode : node ∈ w.tree.nodes) :
    (node.isRoot = true →
      w.ReadFrom node .rootDirectory w.volume.rootSize [w.volume.rootExtent]) ∧
    (node.isRoot = false → ∃ chain, node.chain? = some chain ∧
      chain.clusters.head? = some chain.start ∧
      (∀ c ∈ chain.clusters, w.volume.clusterOffset c = some (w.volume.clusterExtent c).offset) ∧
      w.ReadFrom node (.cluster chain.start) (chain.length * w.volume.clusterSize)
        (chain.clusters.map w.volume.clusterExtent)) := by
  obtain ⟨claimed, howning⟩ := w.exists_owning
  obtain ⟨below, hplaces, hbelow⟩ : ∃ below, w.tree.places = .root :: below ∧ _ := howning.places
  constructor
  · exact fun hroot ↦ readFrom_of_root hnode (beq_iff_eq.1 hroot)
  · intro hroot
    rw [Node.isRoot, beq_eq_false_iff_ne] at hroot
    have hmem : node.place ∈ .root :: below :=
      hplaces ▸ List.mem_map_of_mem (Array.mem_toList_iff.2 hnode)
    obtain ⟨chain, hchain, hhead⟩ := hbelow _ ((List.mem_cons.1 hmem).resolve_left hroot)
    rw [← Node.chain?_eq] at hchain
    have hfirst : ∀ c ∈ chain.clusters, firstCluster ≤ c := by
      intro c hc
      have htree : c ∈ w.tree.clusters := List.mem_flatMap.2
        ⟨chain, List.mem_filterMap.2 ⟨node, Array.mem_toList_iff.2 hnode, hchain⟩, hc⟩
      exact (howning.ledger.inOrder.isData htree).1
    rcases hplace : node.place with _ | ⟨parent, entry, other⟩
    · exact absurd hplace hroot
    · obtain rfl : other = chain := by
        rw [Node.chain?, hplace] at hchain
        exact Option.some.inj hchain
      exact ⟨other, hchain, hhead, fun c hc ↦ Volume.clusterOffset_eq (hfirst c hc),
        readFrom_of_below hnode hplace hfirst⟩

/-- A directory whose chain goes from cluster `2` to `4` and back to `3`, in an image that ends
inside cluster `4`. -/
def cutSample : Walk where
  volume := sample.volume
  table := ⟨#[0, 0, 0, 0, 4, 0, 0xFF, 0xFF, 3, 0]⟩
  image := (List.replicate 32 0 ++ sampleRecord 0x10 2 ++ List.replicate 128 0 ++
    sampleRecord 0x20 0 ++ sampleRecord 0x20 0 ++ List.replicate 16 0x41).toArray
  maxDepth := 1

/-- Cluster `3` lies inside the image and is dropped all the same. -/
theorem cutSample_readFrom : ∃ node ∈ cutSample.tree.nodes,
    node.chain? = some ⟨2, [2, 4, 3], .complete⟩ ∧ node.sizeBytes = 96 ∧
      node.entries = (Listing.read cutSample.volume
        (cutSample.image.window 192 32 ++ cutSample.image.window 256 16)).entries ∧
      node.findings.toList.filter Finding.isTruncated = [.truncated (.cluster 2) 96 48] ∧
      node.findings.toList.filter Finding.isCutRecord = [.cutRecord ⟨32, 16⟩] := by
  have hnode : (cutSample.tree.nodes[1]?).map (fun node ↦ (node.chain?, node.isRoot)) =
      some (some ⟨2, [2, 4, 3], .complete⟩, false) := by
    decide +kernel
  obtain ⟨node, hget, hparts⟩ := Option.map_eq_some_iff.1 hnode
  rw [Prod.mk.injEq] at hparts
  have hmem := Array.mem_of_getElem? hget
  obtain ⟨chain, hchain, -, -, hread⟩ := (readFrom_of_mem hmem).2 hparts.2
  obtain rfl := Option.some.inj (hchain.symm.trans hparts.1)
  have hregion : Extent.read cutSample.image ([2, 4, 3].map cutSample.volume.clusterExtent) =
      cutSample.image.window 192 32 ++ cutSample.image.window 256 16 := by
    decide +kernel
  have htruncated := hread.truncated_of_isCut (by decide +kernel)
  have hcut := hread.cutRecord_eq
  rw [hregion] at htruncated hcut
  refine ⟨node, hmem, hparts.1, hread.sizeBytes_eq, ?_, htruncated.trans ?_, hcut.trans ?_⟩
  · rw [hread.entries_eq, hregion]
  · decide +kernel
  · decide +kernel

end Walk

end Fat16
