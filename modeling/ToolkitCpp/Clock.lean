import ToolkitCpp.Machine

/-!
# Reading the steady clock

Points of time are nanoseconds of `std::chrono::steady_clock`. The program reads the clock in
two ways: as the milliseconds since an earlier point, narrowed to an `int`, and as the whole
seconds of the clock.
-/
namespace ToolkitCpp.Clock

/-- `elapsed()` of the transports and of the watchdog for the point of time `since`. -/
def elapsed (now since : ℕ) : ℤ := int32 ((now - since) / 1000000)

/-- `getChrono()`. -/
def getChrono (now : ℕ) : ℤ := (now / 1000000000 : ℕ)

end ToolkitCpp.Clock
