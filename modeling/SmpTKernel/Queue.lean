import SmpTKernel.Lib.Rings

/-!
# `queue.h`

The queue routines of the source on the cells of any kind of node.
-/

namespace SmpTKernel

open LinkRing

variable {N : Type*} [DecidableEq N]

abbrev queInit (q : N) (m : Links N) : Links N := single q m

abbrev isQueEmpty (q : N) (m : Links N) : Bool := (m q).next = q

abbrev queInsert (entry q : N) (m : Links N) : Links N := insertBefore entry q m

abbrev queRemove (entry : N) (m : Links N) : Links N := unlink entry m

end SmpTKernel
