import FramehopUnwind.Unwinder.Aarch64
import FramehopUnwind.Unwinder.RuleCache
import FramehopUnwind.Unwinder.X86Translate
import FramehopUnwind.Unwinder.Aarch64Translate
import FramehopUnwind.Unwinder.WithCache
import FramehopUnwind.Modules.InStep
import FramehopUnwind.Modules.Loader
import FramehopUnwind.Modules.ElfAddresses
import FramehopUnwind.Modules.JitIndex
import FramehopUnwind.Modules.MachoKeys
import FramehopUnwind.Modules.MachoData
import FramehopUnwind.Modules.Pe
import FramehopUnwind.State.Reclaim
import FramehopUnwind.State.Pool
import FramehopUnwind.Cursor.Overflow
import FramehopUnwind.Cursor.PtrAuth
