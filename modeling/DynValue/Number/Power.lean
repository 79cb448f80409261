/-!
# Powers of natural numbers

Ranges of integers, spacings of floats and decimal grids are all powers.
A power of natural numbers is repeated multiplication, and algebra has
the same power for every monoid. The two agree; here `b ^ n` is always the
former, which the kernel evaluates directly, also where the latter is in
sight. So a statement about powers reads the same in every module.
-/

attribute [instance (2000)] instPowNat
