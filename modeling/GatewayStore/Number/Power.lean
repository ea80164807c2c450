/-
  A power of a natural number or an integer is the built-in one in every module. A library that makes
  these types monoids brings in a second power, and `2 ^ 64` would then depend on what is imported.
-/

attribute [instance (high), default_instance (high + 1)] instPowNat
